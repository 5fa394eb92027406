/-! Things by name: an association list in which every name stands at most once. -/
namespace NoiseLink.Scenario

abbrev Names (α : Type) := List (String × α)

namespace Names

def get? (names : Names α) (name : String) : Option α := List.lookup name names

def erase (names : Names α) (name : String) : Names α := names.filter (·.1 ≠ name)

def insert (names : Names α) (name : String) (thing : α) : Names α := (name, thing) :: names.erase name

@[simp] theorem get?_erase (names : Names α) (name : String) : (names.erase name).get? name = none := by
  simpa [get?, erase, List.lookup_eq_none_iff] using fun _ _ _ other => Ne.symm other

@[simp] theorem get?_insert (names : Names α) (name : String) (thing : α) :
    (names.insert name thing).get? name = some thing := by
  simp [get?, insert]

end Names

end NoiseLink.Scenario
