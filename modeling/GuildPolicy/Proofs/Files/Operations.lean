import GuildPolicy.Proofs.Files.Changes

namespace GuildPolicy

open GuildPolicy.Path

/-- What is done to files at once. -/
inductive Operation
  | makeDirectory (path : String)
  | write (path : String) (bytes : List UInt8)
  | rename (source path : String)

def Operation.apply (fs : Files) : Operation → Except FileFault Files
  | .makeDirectory path => fs.makeDirectory path
  | .write path bytes => fs.write path bytes
  | .rename source path => fs.rename source path

/-- An operation that is needed to replace the file at a path. -/
def Operation.Serves (path : String) : Operation → Prop
  | .makeDirectory q => ∃ qs, parents? path = some qs ∧ q ∈ qs
  | .write q _ => q = path ++ ".tmp"
  | .rename source q => source = path ++ ".tmp" ∧ q = path

/-- An operation that comes before the file at a path is replaced. Whatever bytes are written beside
it by then, the file itself is left alone. -/
def Operation.Prepares (path : String) : Operation → Prop
  | .makeDirectory q => ∃ qs, parents? path = some qs ∧ q ∈ qs
  | .write q _ => q = path ++ ".tmp"
  | .rename _ _ => False

/-- Operations that all succeed, one after the other. -/
inductive Performs : Files → List Operation → Files → Prop
  | nil (fs : Files) : Performs fs [] fs
  | cons {fs fs' fs'' : Files} {op : Operation} {ops : List Operation}
    (h : op.apply fs = .ok fs') (hops : Performs fs' ops fs'') : Performs fs (op :: ops) fs''

namespace Performs

variable {fs fs' fs'' : Files} {op : Operation} {ops ops' : List Operation}

theorem append (h : Performs fs ops fs') (h' : Performs fs' ops' fs'') :
    Performs fs (ops ++ ops') fs'' := by
  induction h with
  | nil fs => exact h'
  | cons hop _ ih => exact .cons hop (ih h')

theorem induction {P : Files → Prop} (h : Performs fs ops fs') (hfs : P fs)
    (hstep : ∀ op ∈ ops, ∀ fs fs', P fs → op.apply fs = .ok fs' → P fs') : P fs' := by
  induction h with
  | nil fs => exact hfs
  | cons hop _ ih =>
    apply ih
    · exact hstep _ (List.mem_cons_self ..) _ _ hfs hop
    · intro op hmem
      exact hstep op (List.mem_cons_of_mem _ hmem)

end Performs

/-- Operations of a kind lead from files to others. -/
def Reaches (P : Operation → Prop) (fs fs' : Files) : Prop :=
  ∃ ops, Performs fs ops fs' ∧ ∀ op ∈ ops, P op

namespace Reaches

variable {P Q : Operation → Prop} {fs fs' fs'' : Files} {op : Operation}

theorem refl (P : Operation → Prop) (fs : Files) : Reaches P fs fs := ⟨[], .nil fs, nofun⟩

theorem trans (h : Reaches P fs fs') (h' : Reaches P fs' fs'') : Reaches P fs fs'' := by
  obtain ⟨ops, hops, hP⟩ := h
  obtain ⟨ops', hops', hP'⟩ := h'
  exact ⟨ops ++ ops', hops.append hops', List.forall_mem_append.2 ⟨hP, hP'⟩⟩

theorem concat (h : Reaches P fs fs') (hP : P op) (hop : op.apply fs' = .ok fs'') :
    Reaches P fs fs'' :=
  h.trans ⟨[op], .cons hop (.nil fs''), List.forall_mem_singleton.2 hP⟩

theorem mono (h : Reaches P fs fs') (hPQ : ∀ op, P op → Q op) : Reaches Q fs fs' := by
  obtain ⟨ops, hops, hP⟩ := h
  exact ⟨ops, hops, fun op hop => hPQ op (hP op hop)⟩

end Reaches

namespace Files

variable {fs fs' : Files} {path : String} {bytes : List UInt8} {op : Operation}

theorem makeChain_reaches {P : Operation → Prop} {qs : List String} (fs : Files)
    (hP : ∀ q ∈ qs, P (.makeDirectory q)) : Reaches P fs (fs.makeChain qs).1 := by
  induction qs generalizing fs with
  | nil => exact .refl P fs
  | cons q qs ih =>
    obtain ⟨hq, hqs⟩ := List.forall_mem_cons.1 hP
    have hchain := ih fs hqs
    rw [makeChain]
    cases hmake : fs.makeDirectory q with
    | ok made => exact (Reaches.refl P fs).concat hq hmake
    | error f =>
      cases f with
      | notFound =>
        dsimp only
        generalize fs.makeChain qs = chain at hchain ⊢
        obtain ⟨made, result⟩ := chain
        cases result with
        | error f => exact hchain
        | ok =>
          dsimp only
          cases hmake' : made.makeDirectory q with
          | error f => exact hchain
          | ok made' => exact hchain.concat hq hmake'
      | _ => exact .refl P fs

theorem makeParents_reaches (fs : Files) (path : String) :
    Reaches (·.Prepares path) fs (fs.makeParents path).1 := by
  rw [makeParents_eq]
  split
  · next q qs hqs =>
    apply makeChain_reaches
    intro q' hq'
    exact ⟨q :: qs, hqs, hq'⟩
  · exact .refl _ fs

/-- Replacing a file ends with preparations, of which some operation failed, or with the bytes taking
the place of the file after all of them. -/
theorem replace_cases (fs : Files) (path : String) (bytes : List UInt8) :
    ∃ prepared, Reaches (·.Prepares path) fs prepared ∧
      ((∃ e, fs.replace path bytes = (prepared, .error e)) ∨
        prepared.read (path ++ ".tmp") = .ok bytes ∧
        ∃ made, prepared.rename (path ++ ".tmp") path = .ok made ∧
          fs.replace path bytes = (made, .ok ())) := by
  have hparents := fs.makeParents_reaches path
  rw [replace]
  generalize fs.makeParents path = parents at hparents ⊢
  obtain ⟨made, result⟩ := parents
  cases result with
  | error f => exact ⟨made, hparents, .inl ⟨_, rfl⟩⟩
  | ok =>
    dsimp only
    cases hwrite : made.write (path ++ ".tmp") bytes with
    | error f => exact ⟨made, hparents, .inl ⟨_, rfl⟩⟩
    | ok written =>
      have hprepares : Operation.Prepares path (.write (path ++ ".tmp") bytes) := rfl
      refine ⟨written, hparents.concat hprepares hwrite, ?_⟩
      dsimp only
      cases hrename : written.rename (path ++ ".tmp") path with
      | error f => exact .inl ⟨_, rfl⟩
      | ok renamed => exact .inr ⟨read_write hwrite, renamed, rfl, rfl⟩

end Files

theorem Operation.Prepares.changes {fs fs' : Files} {path : String} {op : Operation}
    (h : op.Prepares path) (ha : op.apply fs = .ok fs') :
    fs.Changes fs' path (fs.Touched path False) := by
  cases op with
  | makeDirectory q =>
    obtain ⟨qs, hqs, hq⟩ := h
    exact Files.changes_of_makeDirectory (of_mem_parents? hqs hq) ha
  | write q bytes =>
    cases h
    obtain ⟨place, hl, rfl⟩ := Files.leads_of_write ha
    exact hl.changes_put (.inr hl.ends)
  | rename source q => exact h.elim

theorem Operation.Serves.changes {fs fs' : Files} {path : String} {op : Operation}
    (h : op.Serves path) (ha : op.apply fs = .ok fs') :
    fs.Changes fs' path (fs.Touched path True) := by
  have hprepares (hop : op.Prepares path) : fs.Changes fs' path (fs.Touched path True) :=
    (hop.changes ha).mono fun _ => .imp_left fun hfalse => hfalse.1.elim
  cases op with
  | makeDirectory q => exact hprepares h
  | write q bytes => exact hprepares h
  | rename source q =>
    obtain ⟨rfl, rfl⟩ := h
    obtain ⟨src, place, moved, hsrc, -, hplace, rfl⟩ := Files.leads_of_rename ha
    have herase : fs.Changes (fs.erase src) q (fs.Touched q True) :=
      hsrc.changes_erase (.inr hsrc.ends)
    apply herase.trans
    exact (hsrc.erase hplace).changes_put (.inl ⟨trivial, hplace.ends⟩)

/-- However many preparations there were, and whatever they wrote, only what is beside the file at a
path has changed, and directories on the way to it. -/
theorem Reaches.changes {fs fs' : Files} {path : String}
    (h : Reaches (·.Prepares path) fs fs') : fs.Changes fs' path (fs.Touched path False) := by
  obtain ⟨ops, hops, hprepares⟩ := h
  apply hops.induction (.refl fs path _)
  intro op hop made made' hmade ha
  have hchanges := (hprepares op hop).changes ha
  exact hmade.trans (hchanges.mono fun _ htouched => htouched.congr hmade.keeps.working)

end GuildPolicy
