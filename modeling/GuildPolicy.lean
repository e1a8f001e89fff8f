import GuildPolicy.Build.CommandLine
import GuildPolicy.Main
import GuildPolicy.Session
import GuildPolicy.Proofs.AccessVector.Conflicts
import GuildPolicy.Proofs.IdleCache.Refinement
import GuildPolicy.Proofs.Module.Excerpts
import GuildPolicy.Proofs.Module.Layout
import GuildPolicy.Proofs.Module.Loadable
import GuildPolicy.Proofs.Syntax.Arithmetic
import GuildPolicy.Proofs.Syntax.Spans
import GuildPolicy.Proofs.Syntax.Underlines
import GuildPolicy.Proofs.Guild.Writing
import GuildPolicy.Proofs.Snapshot.Canonical
import GuildPolicy.Proofs.Session.Deny
import GuildPolicy.Proofs.Session.Healing
import GuildPolicy.Proofs.Session.References
import GuildPolicy.Proofs.Session.Staleness
import GuildPolicy.Proofs.Session.Storage
import GuildPolicy.Proofs.Session.Validity
import GuildPolicy.Proofs.Build.Confinement
import GuildPolicy.Proofs.Build.Summaries
