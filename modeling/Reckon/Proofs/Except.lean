/-! Results of steps that may fail, taken apart into those of the single steps. -/

namespace Reckon

theorem exists_of_bind_ok {f : α → Except ε β} {result : Except ε α} {b : β}
    (bound : result >>= f = .ok b) : ∃ a, result = .ok a ∧ f a = .ok b := by
  cases result with
  | error error => cases bound
  | ok a => exact ⟨a, rfl, bound⟩

theorem bind_eq_ok_iff {f : α → Except ε β} {result : Except ε α} {b : β} :
    result >>= f = .ok b ↔ ∃ a, result = .ok a ∧ f a = .ok b := by
  constructor
  · exact exists_of_bind_ok
  · rintro ⟨a, rfl, next⟩
    exact next

theorem exists_of_map_ok {f : α → β} {result : Except ε α} {b : β}
    (mapped : f <$> result = .ok b) : ∃ a, result = .ok a ∧ f a = b := by
  cases result with
  | error error => cases mapped
  | ok a => exact ⟨a, rfl, Except.ok.inj mapped⟩

theorem error_of_map {f : α → β} {result : Except ε α} {error : ε}
    (mapped : f <$> result = .error error) : result = .error error := by
  cases result with
  | error other => exact congrArg Except.error (Except.error.inj mapped)
  | ok a => cases mapped

end Reckon
