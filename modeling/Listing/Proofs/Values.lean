import Listing.Proofs.Blank
import Listing.Proofs.Counting
import Listing.Proofs.Meaning
import Listing.Proofs.Operators

namespace Listing

open Sql

def Test.blank : Test → Test
  | .compare field op _ => .compare field op ""
  | .oneOf field raws => .oneOf field (raws.map fun _ ↦ "")
  | .noneOf field raws => .noneOf field (raws.map fun _ ↦ "")
  | test => test

def Predicate.blank (p : Predicate) : Predicate := ⟨p.test.blank, p.connective⟩

namespace Step

mutual

def blank : Step → Step
  | .restrict p => .restrict p.blank
  | .group c scope => .group c (blankAll scope)
  | .existing chain c scope => .existing chain c (blankAll scope)
  | .load includes => .load (includesBlank includes)
  | step => step

def blankAll : List Step → List Step
  | [] => []
  | step :: more => blank step :: blankAll more

def includeBlank : Include Step → Include Step
  | .plain chain => .plain chain
  | .scoped chain scope => .scoped chain (blankAll scope)

def includesBlank : List (Include Step) → List (Include Step)
  | [] => []
  | i :: more => includeBlank i :: includesBlank more

end

theorem blankAll_eq (steps : List Step) : blankAll steps = steps.map blank := by
  induction steps with
  | nil => rfl
  | cons step more ih => rw [blankAll, ih, List.map_cons]

end Step

theorem Draft.tested_blank (d : Draft) (catalog : Catalog) (test : Test) :
    d.blank.tested catalog test.blank = (d.tested catalog test).map Junction.blank := by
  have hbound (op : Comparison) : bound op "" = .text "" := by cases op <;> rfl
  have hliterals (raws : List String) : (raws.map fun _ ↦ "").map Value.ofLiteral =
      (raws.map Value.ofLiteral).map fun _ ↦ .text "" := by
    rw [List.map_map, List.map_map]
    rfl
  cases test with
  | compare field op raw =>
    simp only [tested, Test.blank, hbound]
    rfl
  | oneOf field raws =>
    simp only [tested, Test.blank, hliterals]
    rfl
  | noneOf field raws =>
    simp only [tested, Test.blank, hliterals]
    rfl
  | null field => rfl
  | notNull field => rfl
  | has chain =>
    have htable : d.blank.table = d.table := rfl
    simp only [tested, Test.blank, htable]
    cases catalog.resolve d.table chain with
    | error f => rfl
    | ok hops => exact congrArg Except.ok (existence_blank hops none).symm

theorem Draft.restrict_blank (d : Draft) (catalog : Catalog) (p : Predicate) :
    d.blank.restrict catalog p.blank = (d.restrict catalog p).map Draft.blank := by
  simp only [restrict, Predicate.blank, tested_blank]
  cases d.tested catalog p.test with
  | error f => rfl
  | ok j => exact congrArg Except.ok (d.push_blank p.connective j).symm

namespace Outcome

def blank (o : Outcome) : Outcome := { o with draft := o.draft.blank }

theorem blank_ofExcept (d : Draft) (e : Except Failure Draft) :
    ofExcept d.blank (e.map Draft.blank) = (ofExcept d e).blank := by
  cases e <;> rfl

theorem blank_andThen {o : Outcome} {next next' : Draft → Outcome}
    (h : ∀ d, next' d.blank = (next d).blank) :
    o.blank.andThen next' = (o.andThen next).blank := by
  obtain ⟨d, asked, failure?⟩ := o
  cases failure? with
  | some f => rfl
  | none =>
    simp only [andThen, blank, h]

theorem blank_close (o : Outcome) (d : Draft) {into into' : Draft → Draft}
    (h : ∀ inner, into' inner.blank = (into inner).blank) :
    o.blank.close d.blank into' = (o.close d into).blank := by
  obtain ⟨inner, asked, failure?⟩ := o
  cases failure? with
  | some f => rfl
  | none => simp only [close, blank, h]

end Outcome

namespace Step

section Run

variable (schema : Catalog) (count count' : Select → Except Failure UInt64)

mutual

theorem run_blank : ∀ (step : Step), step.counts = false → ∀ d : Draft,
    run ⟨schema, count'⟩ step.blank d.blank = (run ⟨schema, count⟩ step d).blank
  | .restrict p, _, d => by
    rw [blank, run, run, Draft.restrict_blank]
    exact Outcome.blank_ofExcept d _
  | .group c scope, h, d => by
    have ih := runAll_blank scope h { table := d.table }
    have hinto (inner : Draft) := (d.pushGroup_blank c inner).symm
    exact (congrArg (Outcome.close · d.blank _) ih).trans (Outcome.blank_close _ d hinto)
  | .existing chain c scope, h, d => by
    have htable : d.blank.table = d.table := rfl
    simp only [blank, run, htable]
    cases schema.resolve d.table chain with
    | error f => rfl
    | ok hops =>
      have ih := runAll_blank scope h { table := Catalog.lastTable d.table hops }
      have hinto (inner : Draft) :
          d.blank.push c (Draft.existence hops inner.blank.condition?) =
            (d.push c (Draft.existence hops inner.condition?)).blank := by
        rw [Draft.push_blank, Draft.existence_blank, Draft.condition?_blank]
      exact (congrArg (Outcome.close · d.blank _) ih).trans (Outcome.blank_close _ d hinto)
  | .load includes, h, d => runIncludes_blank includes h d
  | .order o, _, d => rfl
  | .limit n, _, d => rfl
  | .offset n, _, d => rfl
  | .tableAt chain, _, d => by
    have htable : d.blank.table = d.table := rfl
    simp only [blank, run, htable]
    cases schema.tableAt d.table chain <;> rfl
  | .countRows, h, _ => absurd h.symm Bool.false_ne_true
  | .fail f, _, d => rfl

theorem runAll_blank : ∀ (steps : List Step), countsAny steps = false → ∀ d : Draft,
    runAll ⟨schema, count'⟩ (blankAll steps) d.blank = (runAll ⟨schema, count⟩ steps d).blank
  | [], _, d => rfl
  | step :: more, h, d => by
    obtain ⟨hstep, hmore⟩ := Bool.or_eq_false_iff.mp h
    rw [blankAll, runAll, runAll, run_blank step hstep d]
    exact Outcome.blank_andThen (runAll_blank more hmore)

theorem runInclude_blank : ∀ (i : Include Step), includeCounts i = false → ∀ d : Draft,
    runInclude ⟨schema, count'⟩ (includeBlank i) d.blank = (runInclude ⟨schema, count⟩ i d).blank
  | .plain chain, _, d => by
    have htable : d.blank.table = d.table := rfl
    simp only [includeBlank, runInclude, htable]
    cases schema.resolve d.table chain with
    | error f => rfl
    | ok hops =>
      simp only [Except.map, Outcome.ofExcept, ← Draft.loadRoute_blank]
      rfl
  | .scoped chain scope, h, d => by
    have htable : d.blank.table = d.table := rfl
    simp only [includeBlank, runInclude, htable]
    cases schema.resolve d.table chain with
    | error f => rfl
    | ok hops =>
      have ih := runAll_blank scope h { table := Catalog.lastTable d.table hops }
      simp only [← Draft.loadRoute_blank]
      exact (congrArg (Outcome.close · _ _) ih).trans
        (Outcome.blank_close _ _ fun inner ↦ (Draft.loadScope_blank _ _ inner).symm)

theorem runIncludes_blank : ∀ (includes : List (Include Step)), includesCount includes = false →
    ∀ d : Draft, runIncludes ⟨schema, count'⟩ (includesBlank includes) d.blank =
      (runIncludes ⟨schema, count⟩ includes d).blank
  | [], _, d => rfl
  | i :: more, h, d => by
    obtain ⟨hi, hmore⟩ := Bool.or_eq_false_iff.mp h
    rw [includesBlank, runIncludes, runIncludes, runInclude_blank i hi d]
    exact Outcome.blank_andThen (runIncludes_blank more hmore)

end

end Run

end Step

/-- Of a list of values only the separators are left, and of other values nothing. -/
def Filter.blank (separator : Char) (f : Filter) : Filter :=
  { f with
    value :=
      if f.operator = "in" ∨ f.operator = "nin" then
        String.ofList (List.replicate (f.value.toList.count separator) separator)
      else "" }

def Request.blank (separator : Char) (r : Request) : Request :=
  { r with filters := r.filters.map (Filter.blank separator) }

namespace Place

variable {α β : Type} (g : α → β)

def map : Place α → Place β
  | .root item => .root (g item)
  | .related chain item => .related chain (g item)

theorem root?_map (p : Place α) : (p.map g).root? = p.root?.map g := by
  cases p <;> rfl

theorem related?_map (p : Place α) :
    (p.map g).related? = p.related?.map fun (chain, item) ↦ (chain, g item) := by
  cases p <;> rfl

end Place

def Filter.blanks (separator : Char) (group : String × List Filter) : String × List Filter :=
  (group.1, group.2.map (Filter.blank separator))

namespace Request

variable (separator : Char) (r : Request)

theorem place_blank (f : Filter) :
    (f.blank separator).place = f.place.map (Filter.blank separator) := by
  have hrelated : (f.blank separator).IsRelated ↔ f.IsRelated := Iff.rfl
  have hlisting : (f.blank separator).onListing = f.onListing.blank separator := by
    rw [Filter.onListing, Filter.onListing, apply_ite (Filter.blank separator)]
    rfl
  rw [Filter.place_eq, Filter.place_eq]
  by_cases h : f.IsRelated
  · rw [if_pos h, if_pos (hrelated.mpr h)]
    rfl
  · rw [if_neg h, if_neg (mt hrelated.mp h), hlisting]
    rfl

theorem rootFilters_blank :
    (r.blank separator).rootFilters = r.rootFilters.map (Filter.blank separator) := by
  simp only [rootFilters, blank, List.filterMap_map, List.map_filterMap, Function.comp_def,
    place_blank, Place.root?_map]

theorem byChain_blank (items : List (String × Filter)) :
    byChain (items.map fun (chain, f) ↦ (chain, f.blank separator)) =
      (byChain items).map (Filter.blanks separator) := by
  simp only [byChain, List.map_map, List.filter_map, Function.comp_def, Filter.blanks]

theorem relatedFilters_blank (c : Connective) : (r.blank separator).relatedFilters c =
    (r.relatedFilters c).map (Filter.blanks separator) := by
  rw [relatedFilters, relatedFilters, ← byChain_blank]
  simp only [blank, List.filterMap_map, Function.comp_def, place_blank, Place.related?_map,
    ← List.map_filterMap, List.filter_map]
  rfl

theorem conjoined_blank :
    r.conjoined.map (Filter.blanks separator) = (r.blank separator).conjoined :=
  (r.relatedFilters_blank separator .and).symm

theorem disjoined_blank :
    r.disjoined.map (Filter.blanks separator) = (r.blank separator).disjoined := by
  simp only [disjoined, conjoined, relatedFilters_blank, List.filter_map, List.map_map,
    Function.comp_def]
  rfl

end Request

namespace Script

variable (separator : Char) (tableAt : String → Except Failure String)

theorem parts_blank {f : Filter} (h : f.operator = "in" ∨ f.operator = "nin") :
    (Text.parts separator (f.blank separator).value).map (fun _ ↦ "") =
      (Text.parts separator f.value).map fun _ ↦ "" := by
  have hcount : (f.blank separator).value.toList.count separator =
      f.value.toList.count separator := by
    rw [Filter.blank, if_pos h, String.toList_ofList, List.count_replicate_self]
  rw [List.map_const', List.map_const', Text.length_parts, Text.length_parts, hcount]

theorem filterStep_blank (f : Filter) :
    (filterStep separator (f.blank separator)).blank = (filterStep separator f).blank := by
  have hoperator : (f.blank separator).operator = f.operator := rfl
  simp only [filterStep, Filter.predicate, hoperator]
  cases ho : Operator.ofCode f.operator with
  | error e => rfl
  | ok op =>
    have hcode : f.operator = op.code := (Operator.code_of_ofCode ho).symm
    have htest : ((f.blank separator).test separator op).blank = (f.test separator op).blank := by
      cases op with
      | oneOf => exact congrArg (Test.oneOf f.field) (parts_blank separator (.inl hcode))
      | noneOf => exact congrArg (Test.noneOf f.field) (parts_blank separator (.inr hcode))
      | _ => rfl
    simp only [Except.map, Step.blank, Predicate.blank, htest]
    rfl

theorem existingStep_blank (c : Connective) (chain table : String) (filters : List Filter) :
    (existingStep separator c chain table (filters.map (Filter.blank separator))).blank =
      (existingStep separator c chain table filters).blank := by
  simp only [existingStep, Step.blank, Step.blankAll_eq, List.map_map]
  congr 1
  refine List.map_congr_left fun f _ ↦ ?_
  have hstep := filterStep_blank separator { f with field := Path.qualify table f.field }
  simp only [Function.comp_apply, Step.blank, Step.blankAll]
  rw [← hstep]
  rfl

theorem withTables_blanks (groups : List (String × List Filter)) :
    withTables tableAt (groups.map (Filter.blanks separator)) =
      (withTables tableAt groups).map (List.map fun (chain, table, filters) ↦
        (chain, table, filters.map (Filter.blank separator))) := by
  induction groups with
  | nil => rfl
  | cons group more ih =>
    obtain ⟨chain, filters⟩ := group
    rw [List.map_cons, Filter.blanks, withTables_cons, withTables_cons, ih]
    cases tableAt chain with
    | error f => rfl
    | ok table => cases withTables tableAt more <;> rfl

theorem relatedSteps_blank (c : Connective) (groups : List (String × List Filter)) :
    Step.blankAll (relatedSteps separator tableAt c (groups.map (Filter.blanks separator))) =
      Step.blankAll (relatedSteps separator tableAt c groups) := by
  simp only [relatedSteps, List.isEmpty_map, withTables_blanks]
  split
  · rfl
  · cases withTables tableAt groups with
    | error f => rfl
    | ok named =>
      have hscope (group : String × String × List Filter) :=
        existingStep_blank separator c group.1 group.2.1 group.2.2
      simp only [Except.map, Step.blankAll_eq, List.map_cons, Step.blank, List.map_map,
        Function.comp_def, hscope]

theorem ofRequest_blank (r : Request) :
    Step.blankAll (ofRequest separator tableAt (r.blank separator)).steps =
      Step.blankAll (ofRequest separator tableAt r).steps := by
  have hroots : Step.blankAll ((r.blank separator).rootFilters.map (filterStep separator)) =
      Step.blankAll (r.rootFilters.map (filterStep separator)) := by
    simp only [r.rootFilters_blank, Step.blankAll_eq, List.map_map, Function.comp_def,
      filterStep_blank]
  have hand := relatedSteps_blank separator tableAt .and r.conjoined
  have hor := relatedSteps_blank separator tableAt .or r.disjoined
  rw [r.conjoined_blank] at hand
  rw [r.disjoined_blank] at hor
  simp only [Step.blankAll_eq] at hroots hand hor ⊢
  simp only [ofRequest, List.map_append, hroots, hand, hor]
  rfl

end Script

/-- Two filters that differ in what they are given to compare with, though not in the number of
values if these are lists. -/
structure Filter.SameShape (separator : Char) (f g : Filter) : Prop where
  field : f.field = g.field
  operator : f.operator = g.operator
  connective : f.connective = g.connective
  separators : f.operator = "in" ∨ f.operator = "nin" →
    f.value.toList.count separator = g.value.toList.count separator

structure Request.SameShape (separator : Char) (r r' : Request) : Prop where
  filters : List.Forall₂ (Filter.SameShape separator) r.filters r'.filters
  orders : r.orders = r'.orders
  includes : r.includes = r'.includes
  window? : r.window? = r'.window?

theorem Filter.SameShape.blank_eq {separator : Char} {f g : Filter}
    (h : f.SameShape separator g) : f.blank separator = g.blank separator := by
  have hvalue : (f.blank separator).value = (g.blank separator).value := by
    simp only [blank, ← h.operator]
    split
    · rename_i hlist
      rw [h.separators hlist]
    · rfl
  simp only [blank, Filter.mk.injEq] at hvalue ⊢
  exact ⟨h.field, h.operator, hvalue, h.connective⟩

theorem Request.SameShape.blank_eq {separator : Char} {r r' : Request}
    (h : r.SameShape separator r') : r.blank separator = r'.blank separator := by
  have hfilters : ∀ {fs gs : List Filter}, List.Forall₂ (Filter.SameShape separator) fs gs →
      fs.map (Filter.blank separator) = gs.map (Filter.blank separator) := by
    intro fs gs h
    induction h with
    | nil => rfl
    | cons hshape _ ih => rw [List.map_cons, List.map_cons, hshape.blank_eq, ih]
  simp only [blank, Request.mk.injEq]
  exact ⟨hfilters h.filters, h.orders, h.includes, h.window?⟩

def Planned.shapes (planned : Planned) (dialect : Dialect) :
    Except Failure (List (String × ℕ)) :=
  planned.result.map fun page ↦ (page.statements dialect).map Statement.shape

section Plan

variable (separator : Char) (schema : Catalog) (count count' : Select → Except Failure UInt64)
  (table : String) {r r' : Request}

theorem outcome_blank (h : r.SameShape separator r') :
    (outcome separator ⟨schema, count⟩ table r).blank =
      (outcome separator ⟨schema, count'⟩ table r').blank := by
  have hrun (count : Select → Except Failure UInt64) (r : Request) :
      (outcome separator ⟨schema, count⟩ table r).blank =
        Step.runAll ⟨schema, count'⟩ (Step.blankAll
          (Script.ofRequest separator (schema.tableAt table) (r.blank separator)).steps)
            { table } := by
    rw [Script.ofRequest_blank]
    exact (Step.runAll_blank schema count count' _
      (Script.countsAny_ofRequest separator _ r) { table }).symm
  rw [hrun, hrun, h.blank_eq]

/-- Two requests that differ in their values alone fail in the same way, or get pages of the same
statements with the same numbers of values. -/
theorem plan_shapes (h : r.SameShape separator r')
    (hcount : r.page?.isSome ∨ ∀ q ∈ (plan separator ⟨schema, count⟩ table r).asked,
      ∀ q' ∈ (plan separator ⟨schema, count'⟩ table r').asked, count q = count' q')
    (dialect : Dialect) : (plan separator ⟨schema, count⟩ table r).shapes dialect =
      (plan separator ⟨schema, count'⟩ table r').shapes dialect := by
  have houtcome := outcome_blank separator schema count count' table h
  simp only [Outcome.blank, Outcome.mk.injEq] at houtcome
  obtain ⟨hdraft, -, hfailure⟩ := houtcome
  have hpage : r.page? = r'.page? := by rw [Request.page?, Request.page?, h.window?]
  have hshapes (limit number : UInt64) :
      (((outcome separator ⟨schema, count⟩ table r).draft.page limit number).statements
        dialect).map Statement.shape =
      (((outcome separator ⟨schema, count'⟩ table r').draft.page limit number).statements
        dialect).map Statement.shape := by
    rw [← Draft.shapes_blank, hdraft, Draft.shapes_blank]
  cases hf : (outcome separator ⟨schema, count⟩ table r).failure? with
  | some f => rw [plan_of_failure hf, plan_of_failure (hfailure.symm.trans hf)]
  | none =>
    have hf' := hfailure.symm.trans hf
    cases hw : r.page? with
    | some w =>
      rw [plan_of_page hf hw, plan_of_page hf' (hpage ▸ hw)]
      exact congrArg Except.ok (hshapes w.limit w.page)
    | none =>
      have hplan := plan_of_count hf hw
      have hplan' := plan_of_count hf' (hpage ▸ hw)
      rw [hw, hplan, hplan'] at hcount
      have hanswer := (hcount.resolve_left Bool.false_ne_true) _ (List.mem_singleton_self _) _
        (List.mem_singleton_self _)
      rw [hplan, hplan', Planned.shapes, Planned.shapes]
      simp only [hanswer]
      cases count' (outcome separator ⟨schema, count'⟩ table r').draft.countSelect with
      | error f => rfl
      | ok n => exact congrArg Except.ok (hshapes n 1)

end Plan

def tame : Request where
  filters := [{ field := "title", operator := "ct", value := "lean" },
    { field := "state", operator := "nin", value := "new" },
    { field := "author.age", operator := "gt", value := "x" },
    { field := "blog_tags.label", operator := "in", value := "a|b|c", connective := .or }]
  orders := [{ field := "author.name" }]

def hostile : Request where
  filters := [{ field := "title", operator := "ct", value := "' OR $1 = ? || 1; --" },
    { field := "state", operator := "nin", value := "true" },
    { field := "author.age", operator := "gt", value := "-1.5" },
    { field := "blog_tags.label", operator := "in", value := "42|\"\\|'", connective := .or }]
  orders := [{ field := "author.name" }]

theorem plan_shapes_hostile : tame.SameShape '|' hostile ∧ tame.page? = none ∧
    ((plan '|' blog "posts" hostile).shapes .mysql).map (List.map Prod.snd) = .ok [10, 8, 0] ∧
      ∀ dialect, (plan '|' blog "posts" tame).shapes dialect =
        (plan '|' blog "posts" hostile).shapes dialect := by
  have hshape : tame.SameShape '|' hostile := by
    refine ⟨?_, rfl, rfl, rfl⟩
    exact .cons ⟨rfl, rfl, rfl, by decide⟩ <| .cons ⟨rfl, rfl, rfl, by decide⟩ <|
      .cons ⟨rfl, rfl, rfl, by decide⟩ <| .cons ⟨rfl, rfl, rfl, by decide⟩ .nil
  refine ⟨hshape, rfl, ?_, fun dialect ↦ ?_⟩
  · rw [plan_eq]
    rfl
  exact plan_shapes '|' blog.schema blog.count blog.count "posts" hshape
    (.inr fun q _ q' _ ↦ rfl) dialect

end Listing
