namespace GuildPolicy

variable {ε α β : Type}

theorem bind_eq_ok_iff {x : Except ε α} {f : α → Except ε β} {b : β} :
    x >>= f = .ok b ↔ ∃ a, x = .ok a ∧ f a = .ok b := by
  cases x with
  | error e =>
    constructor
    · intro h
      cases h
    · rintro ⟨a, h, _⟩
      cases h
  | ok a =>
    constructor
    · intro h
      exact ⟨a, rfl, h⟩
    · rintro ⟨_, h, hf⟩
      cases h
      exact hf

theorem map_eq_ok_iff {x : Except ε α} {f : α → β} {b : β} :
    f <$> x = .ok b ↔ ∃ a, x = .ok a ∧ f a = b := by
  cases x with
  | error e =>
    constructor
    · intro h
      cases h
    · rintro ⟨a, h, _⟩
      cases h
  | ok a =>
    constructor
    · intro h
      cases h
      exact ⟨a, rfl, rfl⟩
    · rintro ⟨_, h, rfl⟩
      cases h
      rfl

theorem bind_eq_error_iff {x : Except ε α} {f : α → Except ε β} {e : ε} :
    x >>= f = .error e ↔ x = .error e ∨ ∃ a, x = .ok a ∧ f a = .error e := by
  cases x with
  | error e' =>
    constructor
    · intro h
      cases h
      exact .inl rfl
    · rintro (h | ⟨a, h, _⟩)
      · cases h
        rfl
      · cases h
  | ok a =>
    constructor
    · intro h
      exact .inr ⟨a, rfl, h⟩
    · rintro (h | ⟨_, h, hf⟩)
      · cases h
      · cases h
        exact hf

theorem map_eq_error_iff {x : Except ε α} {f : α → β} {e : ε} :
    f <$> x = .error e ↔ x = .error e := by
  cases x with
  | error e' =>
    constructor
    · intro h
      cases h
      rfl
    · intro h
      cases h
      rfl
  | ok a => exact ⟨nofun, nofun⟩

theorem toOption_eq_some_iff {x : Except ε α} {a : α} : x.toOption = some a ↔ x = .ok a := by
  cases x with
  | error e => exact ⟨nofun, nofun⟩
  | ok b => exact Option.some_inj.trans ⟨congrArg Except.ok, Except.ok.inj⟩

theorem exists_error_of_not_isOk {x : Except ε α} (h : ¬x.isOk) : ∃ e, x = .error e := by
  cases x with
  | ok a => exact absurd rfl h
  | error e => exact ⟨e, rfl⟩

theorem eq_or_of_mapError {ε' : Type} {f : ε → ε'} {g : α → β} {x y : Except ε α}
    (h : (x.map g).mapError f = (y.map g).mapError f) :
    (∃ a b, x = .ok a ∧ y = .ok b ∧ g a = g b) ∨
      ∃ d e, x = .error d ∧ y = .error e ∧ f d = f e := by
  cases x with
  | ok a =>
    cases y with
    | ok b => exact .inl ⟨a, b, rfl, rfl, Except.ok.inj h⟩
    | error e => cases h
  | error d =>
    cases y with
    | ok b => cases h
    | error e => exact .inr ⟨d, e, rfl, rfl, Except.error.inj h⟩

theorem exists_iff_of_map_eq_toOption {o : Option α} {f : α → β} {r : Except ε β}
    (h : o.map f = r.toOption) (P : β → Prop) :
    (∃ a, o = some a ∧ P (f a)) ↔ ∃ b, r = .ok b ∧ P b := by
  cases r with
  | error e =>
    rw [Option.map_eq_none_iff.1 h]
    exact ⟨nofun, nofun⟩
  | ok b =>
    obtain ⟨a, ha, rfl⟩ := Option.map_eq_some_iff.1 h
    constructor
    · rintro ⟨a', ha', hP⟩
      rw [ha] at ha'
      cases ha'
      exact ⟨f a, rfl, hP⟩
    · rintro ⟨b, hb, hP⟩
      cases hb
      exact ⟨a, ha, hP⟩

end GuildPolicy
