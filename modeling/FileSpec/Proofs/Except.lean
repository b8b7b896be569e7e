/-!
# Results that can be errors

How a computation in steps ends: well if each of its steps does, and otherwise with the error of the
first one that fails. And which results there are among several outcomes.
-/

set_option autoImplicit false

namespace FileSpec

section Bind

variable {Error Middle Result : Type} {first : Except Error Middle}
  {next : Middle → Except Error Result}

theorem exists_of_bind_eq_ok {result : Result} (bound : first >>= next = .ok result) :
    ∃ middle, first = .ok middle ∧ next middle = .ok result := by
  cases first with
  | error error => cases bound
  | ok middle => exact ⟨middle, rfl, bound⟩

theorem bind_eq_error_iff {error : Error} :
    first >>= next = .error error ↔
      first = .error error ∨ ∃ middle, first = .ok middle ∧ next middle = .error error := by
  cases first with
  | error cause => simp [bind, Except.bind]
  | ok middle => simp [bind, Except.bind]

end Bind

theorem exists_eq_ok_iff {Error Result : Type} {outcome : Except Error Result} :
    (∃ result, outcome = .ok result) ↔ ∀ error, outcome ≠ .error error := by
  cases outcome with
  | error error => simp
  | ok result => simp

section MapError

variable {Error Other Result : Type} {first : Except Error Result} {change : Error → Other}

theorem mapError_eq_error_iff {other : Other} :
    first.mapError change = .error other ↔
      ∃ error, first = .error error ∧ change error = other := by
  cases first with
  | error error =>
      constructor
      · intro mapped
        exact ⟨error, rfl, Except.error.inj mapped⟩
      · rintro ⟨_, same, rfl⟩
        obtain rfl := Except.error.inj same
        rfl
  | ok result =>
      constructor
      · intro mapped
        cases mapped
      · rintro ⟨_, same, _⟩
        cases same

@[simp]
theorem mapError_eq_ok_iff {result : Result} :
    first.mapError change = .ok result ↔ first = .ok result := by
  cases first with
  | error error =>
      constructor <;> intro same <;> cases same
  | ok other =>
      constructor <;> intro same <;> obtain rfl := Except.ok.inj same <;> rfl

end MapError

section ToOption

variable {Error Result : Type}

theorem mem_filterMap_toOption {outcomes : List (Except Error Result)} {result : Result} :
    result ∈ outcomes.filterMap Except.toOption ↔ .ok result ∈ outcomes := by
  rw [List.mem_filterMap]
  constructor
  · rintro ⟨outcome, member, isResult⟩
    cases outcome with
    | error error => cases isResult
    | ok other =>
        obtain rfl := Option.some.inj isResult
        exact member
  · exact fun member => ⟨.ok result, member, rfl⟩

@[simp]
theorem filterMap_toOption_map_ok (results : List Result) :
    (results.map fun result => (.ok result : Except Error Result)).filterMap Except.toOption =
      results := by
  rw [List.filterMap_map]
  exact List.filterMap_some

end ToOption

end FileSpec
