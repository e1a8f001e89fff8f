import GuildPolicy.Proofs.AccessVector.Validity

namespace GuildPolicy

/-- A type as a module declares it. -/
structure Declaration where
  name : String
  id : TypeId
  module : String

/-- Two declarations give one id two names, or one name two ids. -/
def Declaration.Clashes (a b : Declaration) : Prop :=
  a.id = b.id ∧ a.name ≠ b.name ∨ a.name = b.name ∧ a.id ≠ b.id

/-- No two of some declarations clash. -/
def Consistent (ds : List Declaration) : Prop := ∀ a ∈ ds, ∀ b ∈ ds, ¬a.Clashes b

/-- The types that a module declares, in the order of their ids. -/
def PolicyModule.declarations (m : PolicyModule) : List Declaration :=
  m.types.zipIdx.map fun (name, i) => ⟨name, UInt32.ofNat i, m.name⟩

def declarations (ms : List PolicyModule) : List Declaration := ms.flatMap (·.declarations)

/-- How a conflict describes a declaration that clashes with one of those before it. -/
structure Blames (before : List Declaration) (d : Declaration) (c : TypeConflict) : Prop where
  module : c.module = d.module
  new : c.new = d.name
  /-- The id if it has another name already, else the other id that the name has already. -/
  typeId : (c.typeId = d.id ∧ ∃ b ∈ before, b.id = d.id ∧ b.name ≠ d.name) ∨
    (c.typeId ≠ d.id ∧ (∀ b ∈ before, b.id = d.id → b.name = d.name) ∧
      ∃ b ∈ before, b.name = d.name ∧ b.id = c.typeId)
  existing : ∃ b ∈ before, b.id = c.typeId ∧ b.name = c.existing
  existingModule :
    (before.find? fun b => b.id = c.typeId).map Declaration.module = some c.existingModule

section Declarations

variable {a b d : Declaration} {ds ds' : List Declaration} {m : PolicyModule} {c : TypeConflict}

theorem Declaration.Clashes.symm (h : a.Clashes b) : b.Clashes a := by
  rcases h with ⟨hid, hname⟩ | ⟨hname, hid⟩
  · exact .inl ⟨hid.symm, hname.symm⟩
  · exact .inr ⟨hname.symm, hid.symm⟩

theorem Declaration.not_clashes_self (d : Declaration) : ¬d.Clashes d := by
  intro h
  rcases h with ⟨-, h⟩ | ⟨-, h⟩
  · exact h rfl
  · exact h rfl

theorem Consistent.of_subset (h : Consistent ds) (hsub : ds' ⊆ ds) : Consistent ds' := by
  intro a ha b hb
  apply h
  · exact hsub ha
  · exact hsub hb

theorem Consistent.concat (h : Consistent ds) (hd : ∀ b ∈ ds, ¬b.Clashes d) :
    Consistent (ds ++ [d]) := by
  intro a ha b hb hclash
  rcases List.mem_append.1 ha with ha | ha
  · rcases List.mem_append.1 hb with hb | hb
    · exact h a ha b hb hclash
    · rw [List.mem_singleton.1 hb] at hclash
      exact hd a ha hclash
  · rw [List.mem_singleton.1 ha] at hclash
    rcases List.mem_append.1 hb with hb | hb
    · exact hd b hb hclash.symm
    · rw [List.mem_singleton.1 hb] at hclash
      exact d.not_clashes_self hclash

theorem Blames.clashes (h : Blames ds d c) : ∃ b ∈ ds, b.Clashes d := by
  rcases h.typeId with ⟨-, b, hb, hid, hname⟩ | ⟨hne, -, b, hb, hname, hid⟩
  · exact ⟨b, hb, .inl ⟨hid, hname⟩⟩
  · refine ⟨b, hb, .inr ⟨hname, ?_⟩⟩
    rw [hid]
    exact hne

theorem Blames.not_consistent (h : Blames ds d c) (hsub : ds ⊆ ds') (hd : d ∈ ds') :
    ¬Consistent ds' := by
  intro hcons
  obtain ⟨b, hb, hclash⟩ := h.clashes
  exact hcons b (hsub hb) d hd hclash

theorem PolicyModule.getElem?_declarations (m : PolicyModule) (i : Nat) : m.declarations[i]? =
    m.types[i]?.map fun name => ⟨name, UInt32.ofNat i, m.name⟩ := by
  rw [declarations, List.getElem?_map, List.getElem?_zipIdx, Option.map_map, Nat.zero_add]
  rfl

theorem PolicyModule.mem_declarations : d ∈ m.declarations ↔
    ∃ i name, m.types[i]? = some name ∧ d = ⟨name, UInt32.ofNat i, m.name⟩ := by
  rw [List.mem_iff_getElem?]
  simp only [getElem?_declarations, Option.map_eq_some_iff, @eq_comm _ d]

theorem PolicyModule.module_of_mem_declarations (hd : d ∈ m.declarations) : d.module = m.name := by
  obtain ⟨i, name, -, rfl⟩ := mem_declarations.1 hd
  rfl

variable {ms ms' : List PolicyModule}

theorem mem_declarations : d ∈ declarations ms ↔ ∃ m ∈ ms, d ∈ m.declarations :=
  List.mem_flatMap

@[simp] theorem declarations_nil : declarations [] = [] := rfl

@[simp] theorem declarations_cons : declarations (m :: ms) = m.declarations ++ declarations ms :=
  List.flatMap_cons

@[simp] theorem declarations_append :
    declarations (ms ++ ms') = declarations ms ++ declarations ms' := List.flatMap_append

end Declarations

namespace Merge

section Obstacle

variable {v : AccessVector} {id other : TypeId} {name existing : String}

theorem obstacle?_eq_none (h : obstacle? v id name = none) :
    (∀ n, v.names.get? id = some n → n = name) ∧ ∀ i, v.ids.get? name = some i → i = id := by
  unfold obstacle? at h
  split at h
  · cases h
  · cases h
  next hnames hids =>
  rw [Option.filter_eq_none_iff] at hnames hids
  constructor
  · intro n hn
    simpa using hnames n hn
  · intro i hi
    simpa using hids i hi

theorem obstacle?_eq_some (h : obstacle? v id name = some (other, existing)) :
    (other = id ∧ v.names.get? id = some existing ∧ existing ≠ name) ∨
      (other ≠ id ∧ existing = name ∧ (∀ n, v.names.get? id = some n → n = name) ∧
        v.ids.get? name = some other) := by
  unfold obstacle? at h
  split at h
  · next hnames =>
    cases h
    rw [Option.filter_eq_some_iff] at hnames
    exact .inl ⟨rfl, hnames.1, of_decide_eq_true hnames.2⟩
  · next hnames hids =>
    cases h
    rw [Option.filter_eq_none_iff] at hnames
    rw [Option.filter_eq_some_iff] at hids
    refine .inr ⟨of_decide_eq_true hids.2, rfl, ?_, hids.1⟩
    intro n hn
    simpa using hnames n hn
  · cases h

end Obstacle

/-- A table holds the values of some items under their keys, and nothing else. -/
def Indexes {α κ ν : Type} [DecidableEq κ] (key : α → κ) (value : α → ν) (items : List α)
    (t : Table κ ν) : Prop :=
  ∀ k v, t.get? k = some v ↔ ∃ a ∈ items, key a = k ∧ value a = v

section Index

variable {α κ ν : Type} [DecidableEq κ] {key : α → κ} {value : α → ν} {items : List α} {a b : α}
variable {t : Table κ ν}

theorem Indexes.nil : Indexes key value [] .empty := by
  intro k v
  constructor
  · nofun
  · rintro ⟨a, ha, -⟩
    cases ha

theorem Indexes.get? (h : Indexes key value items t) (ha : a ∈ items) :
    t.get? (key a) = some (value a) := (h _ _).2 ⟨a, ha, rfl, rfl⟩

theorem Indexes.insert (h : Indexes key value items t)
    (ha : ∀ b ∈ items, key b = key a → value b = value a) :
    Indexes key value (items ++ [a]) (t.insert (key a) (value a)) := by
  intro k v
  rw [Table.get?_insert]
  split
  · next hk =>
    constructor
    · intro hv
      cases hv
      exact ⟨a, by simp, hk, rfl⟩
    · rintro ⟨b, hb, hkey, rfl⟩
      rcases List.mem_append.1 hb with hb | hb
      · rw [ha b hb (hkey.trans hk.symm)]
      · rw [List.mem_singleton.1 hb]
  · next hk =>
    rw [h]
    constructor
    · rintro ⟨b, hb, hkey, hvalue⟩
      exact ⟨b, List.mem_append_left _ hb, hkey, hvalue⟩
    · rintro ⟨b, hb, hkey, hvalue⟩
      rcases List.mem_append.1 hb with hb | hb
      · exact ⟨b, hb, hkey, hvalue⟩
      · rw [List.mem_singleton.1 hb] at hkey
        exact absurd hkey hk

end Index

/-- The indexes and the owners of a merge are those of some declarations. -/
structure Records (ds : List Declaration) (s : Merge) : Prop where
  consistent : Consistent ds
  names : Indexes Declaration.id Declaration.name ds s.vector.names
  ids : Indexes Declaration.name Declaration.id ds s.vector.ids
  owners : ∀ id, s.owners.get? id = (ds.find? fun d => d.id = id).map Declaration.module

namespace Records

variable {ds l : List Declaration} {d : Declaration} {m : PolicyModule} {ms : List PolicyModule}
variable {s s' : Merge} {c : TypeConflict} {id : TypeId}

theorem blank : Records [] .blank where
  consistent := nofun
  names := .nil
  ids := .nil
  owners _ := rfl

theorem owned_iff (h : Records ds s) : s.owners.contains id = true ↔ ∃ b ∈ ds, b.id = id := by
  rw [Table.contains, h.owners, Option.isSome_map, List.find?_isSome]
  simp

theorem owner (h : Records ds s) (hid : ∃ b ∈ ds, b.id = id) :
    (ds.find? fun b => b.id = id).map Declaration.module =
      some ((s.owners.get? id).getD "") := by
  rw [← h.owners]
  obtain ⟨owner, ho⟩ := Option.isSome_iff_exists.1 (h.owned_iff.2 hid)
  rw [ho]
  rfl

/-- A declaration that is refused clashes with one before it. -/
theorem blames_of_declare (h : Records ds s) (hm : d.module = m.name)
    (hd : s.declare m d.name d.id = .error c) : Blames ds d c := by
  simp only [Merge.declare] at hd
  split at hd
  case h_2 => cases hd
  case h_1 other existing ho =>
  cases hd
  rcases obstacle?_eq_some ho with ⟨rfl, hname, hne⟩ | ⟨hne, rfl, hname, hid⟩
  · obtain ⟨b, hb, hid, rfl⟩ := (h.names _ _).1 hname
    exact ⟨hm.symm, rfl, .inl ⟨rfl, b, hb, hid, hne⟩, ⟨b, hb, hid, rfl⟩, h.owner ⟨b, hb, hid⟩⟩
  · obtain ⟨b, hb, hname', hid'⟩ := (h.ids _ _).1 hid
    have hfree : ∀ a ∈ ds, a.id = d.id → a.name = d.name := by
      intro a ha hid
      apply hname
      rw [← hid]
      exact h.names.get? ha
    exact ⟨hm.symm, rfl, .inr ⟨hne, hfree, b, hb, hname', hid'⟩, ⟨b, hb, hid', hname'⟩,
      h.owner ⟨b, hb, hid'⟩⟩

theorem declare (h : Records ds s) (hm : d.module = m.name)
    (hd : s.declare m d.name d.id = .ok s') : Records (ds ++ [d]) s' := by
  simp only [Merge.declare] at hd
  split at hd
  case h_1 => cases hd
  case h_2 ho =>
  cases hd
  obtain ⟨hnames, hids⟩ := obstacle?_eq_none ho
  have hname : ∀ b ∈ ds, b.id = d.id → b.name = d.name := by
    intro b hb hid
    apply hnames
    rw [← hid]
    exact h.names.get? hb
  have hid : ∀ b ∈ ds, b.name = d.name → b.id = d.id := by
    intro b hb hname
    apply hids
    rw [← hname]
    exact h.ids.get? hb
  constructor
  case consistent =>
    apply h.consistent.concat
    intro b hb hclash
    rcases hclash with ⟨hid', hne⟩ | ⟨hname', hne⟩
    · exact hne (hname b hb hid')
    · exact hne (hid b hb hname')
  case names => exact h.names.insert hname
  case ids => exact h.ids.insert hid
  case owners =>
    intro id
    rw [List.find?_append, Option.map_or, ← h.owners]
    change (if s.owners.contains d.id then s.owners else s.owners.insert d.id m.name).get? id = _
    by_cases hid : d.id = id
    · have hlast : [d].find? (fun b => b.id = id) = some d := by simp [hid]
      subst hid
      rw [hlast]
      split
      · next howned =>
        obtain ⟨owner, ho⟩ := Option.isSome_iff_exists.1 howned
        rw [ho]
        rfl
      · next hfree =>
        have ho : s.owners.get? d.id = none := by simpa [Table.contains] using hfree
        rw [Table.get?_insert_self, ho, ← hm]
        rfl
    · have hlast : [d].find? (fun b => b.id = id) = none := by simp [hid]
      rw [hlast, Option.map_none, Option.or_none]
      split
      · rfl
      · exact Table.get?_insert_of_ne hid

theorem foldlM_declare (h : Records ds s) (hl : ∀ d ∈ l, d.module = m.name)
    (hd : l.foldlM (fun s d => s.declare m d.name d.id) s = .ok s') : Records (ds ++ l) s' := by
  induction l generalizing ds s with
  | nil =>
    cases hd
    rw [List.append_nil]
    exact h
  | cons d l ih =>
    rw [List.foldlM_cons, bind_eq_ok_iff] at hd
    obtain ⟨s₁, hd, hrest⟩ := hd
    rw [List.append_cons]
    apply ih (h.declare (hl d (by simp)) hd) _ hrest
    intro d' hd'
    exact hl d' (List.mem_cons_of_mem _ hd')

theorem blames_of_foldlM_declare (h : Records ds s) (hl : ∀ d ∈ l, d.module = m.name)
    (hd : l.foldlM (fun s d => s.declare m d.name d.id) s = .error c) :
    ∃ before d after, l = before ++ d :: after ∧ Consistent (ds ++ before) ∧
      Blames (ds ++ before) d c := by
  induction l generalizing ds s with
  | nil => cases hd
  | cons d l ih =>
    rw [List.foldlM_cons, bind_eq_error_iff] at hd
    have hm := hl d (List.mem_cons_self ..)
    rcases hd with hd | ⟨s₁, hd, hrest⟩
    · refine ⟨[], d, l, rfl, ?_, ?_⟩
      · rw [List.append_nil]
        exact h.consistent
      · rw [List.append_nil]
        exact h.blames_of_declare hm hd
    · obtain ⟨before, d', after, rfl, hbefore, hblames⟩ :=
        ih (h.declare hm hd) (fun d' hd' => hl d' (List.mem_cons_of_mem _ hd')) hrest
      rw [← List.append_cons] at hbefore hblames
      exact ⟨d :: before, d', after, rfl, hbefore, hblames⟩

theorem declareAll_eq (m : PolicyModule) (s : Merge) : s.declareAll m =
    m.declarations.foldlM (fun s d => s.declare m d.name d.id) s := by
  rw [PolicyModule.declarations, List.foldlM_map]
  rfl

theorem add (h : Records ds s) (ha : s.add m = .ok s') : Records (ds ++ m.declarations) s' := by
  rw [Merge.add, bind_eq_ok_iff] at ha
  obtain ⟨s₁, hd, he⟩ := ha
  rw [declareAll_eq] at hd
  obtain ⟨hcons, hnames, hids, howners⟩ :=
    h.foldlM_declare (fun _ => m.module_of_mem_declarations) hd
  cases he
  -- Targeted permissions declare nothing.
  rw [foldl_allowPair_eq, foldl_denyPair_eq]
  exact ⟨hcons, hnames, hids, howners⟩

theorem blames_of_add (h : Records ds s) (ha : s.add m = .error c) :
    ∃ before d after, m.declarations = before ++ d :: after ∧ Consistent (ds ++ before) ∧
      Blames (ds ++ before) d c := by
  rw [Merge.add, bind_eq_error_iff] at ha
  rcases ha with hd | ⟨s₁, -, hrest⟩
  · rw [declareAll_eq] at hd
    exact h.blames_of_foldlM_declare (fun _ => m.module_of_mem_declarations) hd
  · cases hrest

theorem foldlM_add (h : Records ds s) (ha : ms.foldlM Merge.add s = .ok s') :
    Records (ds ++ declarations ms) s' := by
  induction ms generalizing ds s with
  | nil =>
    cases ha
    rw [declarations_nil, List.append_nil]
    exact h
  | cons m ms ih =>
    rw [List.foldlM_cons, bind_eq_ok_iff] at ha
    obtain ⟨s₁, hm, hms⟩ := ha
    rw [declarations_cons, ← List.append_assoc]
    exact ih (h.add hm) hms

theorem blames_of_foldlM_add (h : Records ds s) (ha : ms.foldlM Merge.add s = .error c) :
    ∃ earlier m later before d after, ms = earlier ++ m :: later ∧
      m.declarations = before ++ d :: after ∧
      Consistent (ds ++ declarations earlier ++ before) ∧
      Blames (ds ++ declarations earlier ++ before) d c := by
  induction ms generalizing ds s with
  | nil => cases ha
  | cons m ms ih =>
    rw [List.foldlM_cons, bind_eq_error_iff] at ha
    rcases ha with hm | ⟨s₁, hm, hms⟩
    · obtain ⟨before, d, after, hsplit, hbefore, hblames⟩ := h.blames_of_add hm
      refine ⟨[], m, ms, before, d, after, rfl, hsplit, ?_, ?_⟩
      · rw [declarations_nil, List.append_nil]
        exact hbefore
      · rw [declarations_nil, List.append_nil]
        exact hblames
    · obtain ⟨earlier, m', later, before, d, after, rfl, hsplit, hbefore, hblames⟩ :=
        ih (h.add hm) hms
      refine ⟨m :: earlier, m', later, before, d, after, rfl, hsplit, ?_, ?_⟩
      · rw [declarations_cons, ← List.append_assoc]
        exact hbefore
      · rw [declarations_cons, ← List.append_assoc]
        exact hblames

end Records

end Merge

section Conflicts

variable {ms ms' : List PolicyModule} {v : AccessVector} {c : TypeConflict}

theorem consistent_of_build (h : AccessVector.build ms = .ok v) : Consistent (declarations ms) := by
  rw [AccessVector.build, map_eq_ok_iff] at h
  obtain ⟨s, hs, -⟩ := h
  exact (Merge.Records.blank.foldlM_add hs).consistent

theorem blames_of_build (h : AccessVector.build ms = .error c) :
    ∃ earlier m later before d after, ms = earlier ++ m :: later ∧
      m.declarations = before ++ d :: after ∧ Consistent (declarations earlier ++ before) ∧
      Blames (declarations earlier ++ before) d c := by
  rw [AccessVector.build, map_eq_error_iff] at h
  exact Merge.Records.blank.blames_of_foldlM_add h

theorem build_fails_iff : (∃ c, AccessVector.build ms = .error c) ↔
    ¬Consistent (declarations ms) := by
  constructor
  · intro h
    obtain ⟨c, hc⟩ := h
    obtain ⟨earlier, m, later, before, d, after, rfl, hsplit, -, hblames⟩ := blames_of_build hc
    apply hblames.not_consistent
    · simp [hsplit]
    · simp [hsplit]
  · intro hcons
    cases hb : AccessVector.build ms with
    | error c => exact ⟨c, rfl⟩
    | ok v => exact absurd (consistent_of_build hb) hcons

theorem build_fails_iff_of_perm (h : ms'.Perm ms) :
    (∃ c, AccessVector.build ms' = .error c) ↔ ∃ c, AccessVector.build ms = .error c := by
  have hmem (d : Declaration) : d ∈ declarations ms' ↔ d ∈ declarations ms :=
    (h.flatMap_right _).mem_iff
  rw [build_fails_iff, build_fails_iff, not_iff_not]
  constructor
  · intro hcons
    exact hcons.of_subset fun d hd => (hmem d).2 hd
  · intro hcons
    exact hcons.of_subset fun d hd => (hmem d).1 hd

theorem not_consistent_iff (h : ∀ m ∈ ms, m.types.length ≤ UInt32.size) :
    ¬Consistent (declarations ms) ↔ ∃ m ∈ ms, ∃ m' ∈ ms,
      ∃ (i j : Nat) (name name' : String), m.types[i]? = some name ∧ m'.types[j]? = some name' ∧
        (i = j ∧ name ≠ name' ∨ name = name' ∧ i ≠ j) := by
  have hlt {m : PolicyModule} {i : Nat} {name : String} (hm : m ∈ ms)
      (hi : m.types[i]? = some name) : i < UInt32.size := by
    obtain ⟨hi, -⟩ := List.getElem?_eq_some_iff.1 hi
    exact Nat.lt_of_lt_of_le hi (h m hm)
  have hplace {i j : Nat} (hi : i < UInt32.size) (hj : j < UInt32.size) :
      UInt32.ofNat i = UInt32.ofNat j ↔ i = j := by
    constructor
    · intro heq
      have hnat := congrArg UInt32.toNat heq
      rw [UInt32.toNat_ofNat', UInt32.toNat_ofNat'] at hnat
      exact (Nat.mod_eq_of_lt hi).symm.trans (hnat.trans (Nat.mod_eq_of_lt hj))
    · intro heq
      rw [heq]
  have hclashes {m m' : PolicyModule} {i j : Nat} {name name' : String} (hm : m ∈ ms)
      (hm' : m' ∈ ms) (hi : m.types[i]? = some name) (hj : m'.types[j]? = some name') :
      (Declaration.mk name (UInt32.ofNat i) m.name).Clashes ⟨name', UInt32.ofNat j, m'.name⟩ ↔
        i = j ∧ name ≠ name' ∨ name = name' ∧ i ≠ j := by
    rw [Declaration.Clashes, ne_eq (UInt32.ofNat i), hplace (hlt hm hi) (hlt hm' hj)]
  simp only [Consistent, not_forall, not_not]
  constructor
  · rintro ⟨a, ha, b, hb, hclash⟩
    obtain ⟨m, hm, ha⟩ := mem_declarations.1 ha
    obtain ⟨m', hm', hb⟩ := mem_declarations.1 hb
    obtain ⟨i, name, hi, rfl⟩ := PolicyModule.mem_declarations.1 ha
    obtain ⟨j, name', hj, rfl⟩ := PolicyModule.mem_declarations.1 hb
    exact ⟨m, hm, m', hm', i, j, name, name', hi, hj, (hclashes hm hm' hi hj).1 hclash⟩
  · rintro ⟨m, hm, m', hm', i, j, name, name', hi, hj, hclash⟩
    have ha := mem_declarations.2 ⟨m, hm, PolicyModule.mem_declarations.2 ⟨i, name, hi, rfl⟩⟩
    have hb := mem_declarations.2 ⟨m', hm', PolicyModule.mem_declarations.2 ⟨j, name', hj, rfl⟩⟩
    exact ⟨_, ha, _, hb, (hclashes hm hm' hi hj).2 hclash⟩

/-- A merge fails exactly if two declarations of its modules clash, in any order of the modules;
and the conflict it reports is about the first declaration, in the order of modules and ids, that
clashes with one before it. -/
theorem conflict_exact (ms : List PolicyModule) :
    ((∃ c, AccessVector.build ms = .error c) ↔
      ∃ a ∈ declarations ms, ∃ b ∈ declarations ms, a.Clashes b) ∧
    ((∀ m ∈ ms, m.types.length ≤ UInt32.size) →
      ((∃ c, AccessVector.build ms = .error c) ↔ ∃ m ∈ ms, ∃ m' ∈ ms,
        ∃ (i j : Nat) (name name' : String), m.types[i]? = some name ∧ m'.types[j]? = some name' ∧
          (i = j ∧ name ≠ name' ∨ name = name' ∧ i ≠ j))) ∧
    (∀ ms', ms'.Perm ms →
      ((∃ c, AccessVector.build ms' = .error c) ↔ ∃ c, AccessVector.build ms = .error c)) ∧
    ∀ c, AccessVector.build ms = .error c → ∃ earlier m later i name,
      ms = earlier ++ m :: later ∧ m.types[i]? = some name ∧
      Consistent (declarations earlier) ∧ ¬Consistent (declarations (earlier ++ [m])) ∧
      Consistent (declarations earlier ++ m.declarations.take i) ∧
      Blames (declarations earlier ++ m.declarations.take i) ⟨name, UInt32.ofNat i, m.name⟩ c := by
  have hclash : (∃ c, AccessVector.build ms = .error c) ↔
      ∃ a ∈ declarations ms, ∃ b ∈ declarations ms, a.Clashes b := by
    rw [build_fails_iff]
    simp only [Consistent, not_forall, not_not, exists_prop]
  refine ⟨hclash, fun h => ?_, fun ms' => build_fails_iff_of_perm, fun c hc => ?_⟩
  · rw [build_fails_iff]
    exact not_consistent_iff h
  obtain ⟨earlier, m, later, before, d, after, rfl, hsplit, hbefore, hblames⟩ := blames_of_build hc
  have hearlier : Consistent (declarations earlier) :=
    hbefore.of_subset (List.subset_append_left _ _)
  have hclashing : ¬Consistent (declarations (earlier ++ [m])) := by
    apply hblames.not_consistent
    · simp [hsplit]
    · simp [hsplit]
  have hd : m.declarations[before.length]? = some d := by simp [hsplit]
  have htake : m.declarations.take before.length = before := by rw [hsplit, List.take_left]
  generalize before.length = i at hd htake
  subst htake
  rw [m.getElem?_declarations, Option.map_eq_some_iff] at hd
  obtain ⟨name, hname, rfl⟩ := hd
  exact ⟨earlier, m, later, i, name, rfl, hname, hearlier, hclashing, hbefore, hblames⟩

def rolesModule : PolicyModule :=
  ⟨"roles", none, 1, ["user", "mod"], [], [], .empty, .empty⟩

/-- The second of the roles is renamed. -/
def staffModule : PolicyModule :=
  ⟨"staff", none, 1, ["user", "admin"], [], [], .empty, .empty⟩

def staffConflict : TypeConflict := ⟨"staff", "roles", "mod", "admin", 1⟩

theorem conflict_exact_renamed :
    AccessVector.build [rolesModule, staffModule] = .error staffConflict ∧
    (∃ c, AccessVector.build [staffModule, rolesModule] = .error c) ∧
    (∃ m ∈ [rolesModule, staffModule], ∃ m' ∈ [rolesModule, staffModule],
      ∃ (i j : Nat) (name name' : String), m.types[i]? = some name ∧ m'.types[j]? = some name' ∧
        (i = j ∧ name ≠ name' ∨ name = name' ∧ i ≠ j)) ∧
    ∃ earlier m later i name, [rolesModule, staffModule] = earlier ++ m :: later ∧
      m.types[i]? = some name ∧
      Consistent (declarations earlier) ∧ ¬Consistent (declarations (earlier ++ [m])) ∧
      Consistent (declarations earlier ++ m.declarations.take i) ∧
      Blames (declarations earlier ++ m.declarations.take i) ⟨name, UInt32.ofNat i, m.name⟩
        staffConflict := by
  have hb : AccessVector.build [rolesModule, staffModule] = .error staffConflict := rfl
  obtain ⟨-, hplaces, hperm, hblames⟩ := conflict_exact [rolesModule, staffModule]
  refine ⟨hb, ?_, ?_, hblames staffConflict hb⟩
  · apply (hperm [staffModule, rolesModule] _).2
    · exact ⟨staffConflict, hb⟩
    · exact List.Perm.swap ..
  · apply (hplaces _).1
    · exact ⟨staffConflict, hb⟩
    · decide

end Conflicts

end GuildPolicy
