import Listing.Sql.Token
import Listing.Proofs.Truth

namespace Listing.Sql

/-- What symbols say when they are read: tests and existences, joined two at a time. -/
inductive Expr
  | leaf (t : Token)
  | joined (c : Connective) (l r : Expr)

namespace Expr

def truth (v : Token → Truth) : Expr → Truth
  | .leaf t => v t
  | .joined .and l r => l.truth v ⊓ r.truth v
  | .joined .or l r => l.truth v ⊔ r.truth v

inductive Level
  | unit
  | conjunction
  | disjunction

/-- The grammar of conditions. `AND` binds tighter than `OR`, both associate to the left, and
tests and existences bind tighter than either. -/
inductive Reads : Level → List Token → Expr → Prop
  | test (a : Atom) : Reads .unit [.test a] (.leaf (.test a))
  | existing (table : String) (body : List Token) :
      Reads .unit [.existing table body] (.leaf (.existing table body))
  | enclosed {ts : List Token} {e : Expr} :
      Reads .disjunction ts e → Reads .unit (.opening :: ts ++ [.closing]) e
  | unit {ts : List Token} {e : Expr} : Reads .unit ts e → Reads .conjunction ts e
  | and {ts us : List Token} {e f : Expr} : Reads .conjunction ts e → Reads .unit us f →
      Reads .conjunction (ts ++ .connective .and :: us) (.joined .and e f)
  | conjunction {ts : List Token} {e : Expr} : Reads .conjunction ts e → Reads .disjunction ts e
  | or {ts us : List Token} {e f : Expr} : Reads .disjunction ts e → Reads .conjunction us f →
      Reads .disjunction (ts ++ .connective .or :: us) (.joined .or e f)

structure Before where
  disjunction? : Option Expr := none
  conjunction? : Option Expr := none

namespace Before

def conjunction (b : Before) (e : Expr) : Expr := b.conjunction?.elim e (.joined .and · e)

def disjunction (b : Before) (e : Expr) : Expr :=
  b.disjunction?.elim (b.conjunction e) (.joined .or · (b.conjunction e))

end Before

def readFrom (outer : List Before) (b : Before) : Option Expr → List Token → Option Expr
  | none, .test a :: ts => readFrom outer b (some (.leaf (.test a))) ts
  | none, .existing table body :: ts =>
    readFrom outer b (some (.leaf (.existing table body))) ts
  | none, .opening :: ts => readFrom (b :: outer) {} none ts
  | some e, .connective .and :: ts =>
    readFrom outer { b with conjunction? := some (b.conjunction e) } none ts
  | some e, .connective .or :: ts => readFrom outer ⟨some (b.disjunction e), none⟩ none ts
  | some e, .closing :: ts =>
    match outer with
    | [] => none
    | b' :: outer => readFrom outer b' (some (b.disjunction e)) ts
  | some e, [] => if outer.isEmpty then some (b.disjunction e) else none
  | _, _ => none

def read? (ts : List Token) : Option Expr := readFrom [] {} none ts

/-- Reading goes over a sentence to what stands behind it. What it has read by then is the
sentence of the grammar, split into what stands before the last operand and that operand. -/
def Passes (ts : List Token) (e : Expr) : Level → Prop
  | .unit => ∀ outer b rest, readFrom outer b none (ts ++ rest) = readFrom outer b (some e) rest
  | .conjunction => ∀ outer d rest, ∃ c f,
      readFrom outer ⟨d, none⟩ none (ts ++ rest) = readFrom outer ⟨d, c⟩ (some f) rest ∧
        Before.conjunction ⟨d, c⟩ f = e
  | .disjunction => ∀ outer rest, ∃ b f,
      readFrom outer {} none (ts ++ rest) = readFrom outer b (some f) rest ∧ b.disjunction f = e

theorem Reads.passes {level : Level} {ts : List Token} {e : Expr} (h : Reads level ts e) :
    Passes ts e level := by
  induction h with
  | test a =>
    intro outer b rest
    rfl
  | existing table body =>
    intro outer b rest
    rfl
  | @enclosed ts e _ ih =>
    intro outer b rest
    obtain ⟨b', f, hread, rfl⟩ := ih (b :: outer) (.closing :: rest)
    have happend : .opening :: ts ++ [.closing] ++ rest =
        (.opening :: (ts ++ .closing :: rest) : List Token) := by
      rw [List.append_assoc, List.singleton_append, List.cons_append]
    rw [happend, readFrom, hread, readFrom]
  | unit _ ih =>
    intro outer d rest
    exact ⟨none, _, ih outer ⟨d, none⟩ rest, rfl⟩
  | @and ts us e f _ _ ihl ihr =>
    intro outer d rest
    obtain ⟨c, g, hread, rfl⟩ := ihl outer d (.connective .and :: us ++ rest)
    refine ⟨some (Before.conjunction ⟨d, c⟩ g), f, ?_, rfl⟩
    rw [List.append_assoc, hread, List.cons_append, readFrom]
    exact ihr outer _ rest
  | @conjunction ts e _ ih =>
    intro outer rest
    obtain ⟨c, f, hread, rfl⟩ := ih outer none rest
    exact ⟨⟨none, c⟩, f, hread, rfl⟩
  | @or ts us e f _ _ ihl ihr =>
    intro outer rest
    obtain ⟨b, g, hread, rfl⟩ := ihl outer (.connective .or :: us ++ rest)
    obtain ⟨c, k, hmore, rfl⟩ := ihr outer (some (b.disjunction g)) rest
    refine ⟨⟨some (b.disjunction g), c⟩, k, ?_, rfl⟩
    rw [List.append_assoc, hread, List.cons_append, readFrom]
    exact hmore

theorem Reads.read? {ts : List Token} {e : Expr} (h : Reads .disjunction ts e) :
    read? ts = some e := by
  obtain ⟨b, f, hread, rfl⟩ := h.passes [] []
  rw [List.append_nil] at hread
  rw [Expr.read?, hread]
  rfl

theorem Reads.unique {ts : List Token} {e f : Expr} (he : Reads .disjunction ts e)
    (hf : Reads .disjunction ts f) : e = f := by
  have h := he.read?.symm.trans hf.read?
  exact Option.some.inj h

end Expr

end Listing.Sql
