import GuildPolicy.Permission.Mask

namespace GuildPolicy

/-- The permission names that rules may use, and the mask that each stands for. -/
structure Vocabulary where
  version : UInt32
  resolve : String → Option Mask
  entries : List (String × Mask)

namespace Vocabulary

/-- The vocabulary of a list of names, in which the first entry for a name counts. -/
def ofList (version : UInt32) (entries : List (String × Mask)) : Vocabulary where
  version := version
  resolve name := entries.lookup name
  entries := entries

def platformBits : List (String × Nat) := [
  ("CreateInstantInvite", 0), ("KickMembers", 1), ("BanMembers", 2), ("Administrator", 3),
  ("ManageChannels", 4), ("ManageGuild", 5), ("AddReactions", 6), ("ViewAuditLog", 7),
  ("PrioritySpeaker", 8), ("Stream", 9), ("ViewChannel", 10), ("SendMessages", 11),
  ("SendTTSMessages", 12), ("ManageMessages", 13), ("EmbedLinks", 14), ("AttachFiles", 15),
  ("ReadMessageHistory", 16), ("MentionEveryone", 17), ("UseExternalEmojis", 18),
  ("ViewGuildInsights", 19), ("Connect", 20), ("Speak", 21), ("MuteMembers", 22),
  ("DeafenMembers", 23), ("MoveMembers", 24), ("UseVAD", 25), ("ChangeNickname", 26),
  ("ManageNicknames", 27), ("ManageRoles", 28), ("ManageWebhooks", 29),
  ("ManageGuildExpressions", 30), ("UseApplicationCommands", 31), ("RequestToSpeak", 32),
  ("ManageEvents", 33), ("ManageThreads", 34), ("CreatePublicThreads", 35),
  ("CreatePrivateThreads", 36), ("UseExternalStickers", 37), ("SendMessagesInThreads", 38),
  ("UseEmbeddedActivities", 39), ("ModerateMembers", 40),
  ("ViewCreatorMonetizationAnalytics", 41), ("UseSoundboard", 42), ("CreateGuildExpressions", 43),
  ("CreateEvents", 44), ("UseExternalSounds", 45), ("SendVoiceMessages", 46), ("SendPolls", 49),
  ("UseExternalApps", 50)]

def platform : Vocabulary :=
  ofList 1 (platformBits.map fun (name, bit) => (name, BitVec.twoPow 128 bit))

def all (v : Vocabulary) : Mask := Mask.unionAll (v.entries.map Prod.snd)

/-- How a compiler that uses the vocabulary presents itself. -/
def compilerText (v : Vocabulary) : String :=
  "PolicyCompiler \x7b registry_version: " ++ toString v.version ++ " \x7d"

end Vocabulary

end GuildPolicy
