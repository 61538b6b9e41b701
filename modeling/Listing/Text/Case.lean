import Listing.Text.Case.Table

namespace Listing.Text

def CaseRun.Covers (run : CaseRun) (c : Nat) : Prop :=
  run.first ≤ c ∧ c ≤ run.last ∧ (c - run.first) % run.step = 0

instance (run : CaseRun) (c : Nat) : Decidable (run.Covers c) :=
  inferInstanceAs (Decidable (_ ∧ _ ∧ _))

def shifted (runs : List CaseRun) (c : Char) : Char :=
  match runs.find? (fun run ↦ run.Covers c.toNat) with
  | some run => Char.ofNat (c.toNat + run.shift).toNat
  | none => c

def mapped (expansions : List (Nat × List Nat)) (runs : List CaseRun) (c : Char) : List Char :=
  match expansions.lookup c.toNat with
  | some codes => codes.map Char.ofNat
  | none => [shifted runs c]

/-- The full upper-case mapping of one character, without regard to its neighbours. -/
def upper : Char → List Char := mapped upperExpansions upperRuns

def lower : Char → List Char := mapped lowerExpansions lowerRuns

end Listing.Text
