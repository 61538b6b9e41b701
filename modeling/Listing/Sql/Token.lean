import Listing.Sql.Condition

namespace Listing.Sql

inductive Token
  | test (a : Atom)
  | existing (table : String) (body : List Token)
  | connective (c : Connective)
  | opening
  | closing

/-- The symbols of a condition and the connective that joins its outermost parts, if any. -/
structure Written where
  tokens : List Token
  outer? : Option Connective

namespace Written

def enclosed (w : Written) : List Token := .opening :: w.tokens ++ [.closing]

/-- On the left, parts joined by the other connective are enclosed, and on the right all that are
joined. -/
def join (c : Connective) (l r : Written) : Written where
  tokens :=
    (if l.outer?.any (· ≠ c) then l.enclosed else l.tokens) ++
      .connective c :: (if r.outer?.isSome then r.enclosed else r.tokens)
  outer? := some c

def joinAll (c : Connective) : List Written → Written
  | [] => ⟨[], none⟩
  | w :: more => more.foldl (join c) w

end Written

mutual

def Condition.written : Condition → Written
  | .atom a => ⟨[.test a], none⟩
  | .existing table c members =>
    ⟨[.existing table (Written.joinAll c (Condition.writtenAll members)).tokens], none⟩
  | .joined c members => Written.joinAll c (Condition.writtenAll members)

def Condition.writtenAll : List Condition → List Written
  | [] => []
  | c :: more => c.written :: Condition.writtenAll more

end

def Junction.tokens (j : Junction) : List Token :=
  (Written.joinAll j.connective (Condition.writtenAll j.members)).tokens

end Listing.Sql
