import Listing.Json.Reader
import Listing.Json.Writer
import Mathlib.Data.List.TakeDrop
import Mathlib.Data.Option.Basic

namespace Listing.Json

namespace Reader

open Writer

theorem hexDigit?_digitChar {n : ℕ} (h : n < 16) : hexDigit? n.digitChar = some n := by
  revert n
  decide

theorem hexCode?_control {n : ℕ} (h : n < 0x20) :
    hexCode? ['0', '0', (n / 16).digitChar, (n % 16).digitChar] = some n := by
  have hzero : hexDigit? '0' = some 0 := rfl
  have hhigh : hexDigit? (n / 16).digitChar = some (n / 16) := hexDigit?_digitChar (by omega)
  have hlow : hexDigit? (n % 16).digitChar = some (n % 16) := hexDigit?_digitChar (by omega)
  have hcode : 16 * (16 * (16 * (16 * 0 + 0) + 0) + n / 16) + n % 16 = n := by omega
  simp only [hexCode?, List.foldlM_cons, List.foldlM_nil, hzero, hhigh, hlow, Option.map_some,
    Option.bind_eq_bind, Option.bind_some, Option.pure_def, hcode]

theorem codes_escape {mark : Char} {code : ℕ} (h : escapeCode? mark = some code) (r : List Char) :
    codes ('\\' :: mark :: r) = (codes r).map fun (more, r) ↦ (code :: more, r) := by
  have hmark : mark ≠ 'u' := by
    rintro rfl
    cases h
  rw [codes.eq_4 mark r fun _ _ _ _ _ hu ↦ absurd hu hmark, h]
  cases codes r <;> rfl

theorem codes_plain {c : Char} (hquote : c ≠ '"') (hslash : c ≠ '\\') (hc : 0x20 ≤ c.toNat)
    (r : List Char) :
    codes (c :: r) = (codes r).map fun (more, r) ↦ (c.toNat :: more, r) := by
  rw [codes.eq_5 c r hquote (fun _ _ _ _ _ h ↦ absurd h hslash) fun _ _ h ↦ absurd h hslash,
    guard, if_pos hc]
  cases codes r <;> rfl

theorem codes_charText (c : Char) (r : List Char) :
    codes (charText c ++ r) = (codes r).map fun (more, r) ↦ (c.toNat :: more, r) := by
  unfold charText
  split
  case h_8 hquote hslash _ _ _ _ _ =>
    by_cases hcontrol : c.toNat < 0x20
    · rw [if_pos hcontrol]
      simp only [List.cons_append, List.nil_append, codes, hexCode?_control hcontrol]
      cases codes r <;> rfl
    · rw [if_neg hcontrol]
      exact codes_plain hquote hslash (Nat.le_of_not_lt hcontrol) r
  all_goals exact codes_escape rfl r

theorem codes_stringText (l r : List Char) :
    codes (l.flatMap charText ++ '"' :: r) = some (l.map Char.toNat, r) := by
  induction l with
  | nil => rfl
  | cons c l ih =>
    rw [List.flatMap_cons, List.append_assoc, codes_charText, ih]
    rfl

theorem scalar?_toNat (c : Char) : scalar? c.toNat = some c := by
  have hscalar : ¬ (0xd800 ≤ c.toNat ∧ c.toNat < 0xe000) := by
    have hvalid := c.valid
    simp only [UInt32.isValidChar, Nat.isValidChar] at hvalid
    simp only [Char.toNat]
    omega
  rw [scalar?, if_neg hscalar, Char.ofNat_toNat]

theorem scalars?_map_toNat : ∀ l : List Char, scalars? (l.map Char.toNat) = some l
  | [] => rfl
  | [c] => by
    rw [List.map_singleton, scalars?, scalar?_toNat]
    rfl
  | c :: d :: more => by
    have hpair : ¬ (0xd800 ≤ c.toNat ∧ c.toNat < 0xdc00 ∧ 0xdc00 ≤ d.toNat ∧ d.toNat < 0xe000) := by
      have hvalid := c.valid
      simp only [UInt32.isValidChar, Nat.isValidChar] at hvalid
      simp only [Char.toNat]
      omega
    have ih := scalars?_map_toNat (d :: more)
    rw [List.map_cons] at ih
    rw [List.map_cons, List.map_cons, scalars?, if_neg hpair, scalar?_toNat, ih]
    rfl

theorem text?_map_toNat (s : String) : text? (s.toList.map Char.toNat) = some s := by
  rw [text?, scalars?_map_toNat, Option.map_some, String.ofList_toList]

def Closes (r : List Char) : Prop := ∀ c ∈ r.head?, c = ',' ∨ c = ']' ∨ c = '}'

theorem closes_cons {c : Char} (h : c = ',' ∨ c = ']' ∨ c = '}') (r : List Char) :
    Closes (c :: r) := by
  intro d hd
  obtain rfl := Option.some.inj hd
  exact h

theorem digits?_append {digits r : List Char} (hne : digits ≠ [])
    (hdigits : ∀ c ∈ digits, c.isDigit) (hr : Closes r) :
    digits? (digits ++ r) = some (digits, r) := by
  have hrest : r.takeWhile Char.isDigit = [] ∧ r.dropWhile Char.isDigit = r := by
    cases r with
    | nil => exact ⟨rfl, rfl⟩
    | cons c r =>
      have hc : c.isDigit = false := by
        rcases hr c rfl with rfl | rfl | rfl <;> rfl
      rw [List.takeWhile_cons, List.dropWhile_cons, hc]
      exact ⟨rfl, rfl⟩
  rw [digits?, List.span_eq_takeWhile_dropWhile, List.takeWhile_append_of_pos hdigits,
    List.dropWhile_append_of_pos hdigits, hrest.1, hrest.2, List.append_nil]
  cases digits with
  | nil => exact absurd rfl hne
  | cons c digits => rfl

theorem exists_toDigits (n : ℕ) : ∃ c more, Nat.toDigits 10 n = c :: more ∧ c.isDigit := by
  cases htext : Nat.toDigits 10 n with
  | nil => exact absurd htext Nat.toDigits_ne_nil
  | cons c more =>
    have hmem : c ∈ Nat.toDigits 10 n := by
      rw [htext]
      exact List.mem_cons_self
    exact ⟨c, more, rfl, Nat.isDigit_of_mem_toDigits (by omega) (by omega) hmem⟩

theorem toDigits_zero_cons {n : ℕ} {more : List Char} (h : Nat.toDigits 10 n = '0' :: more) :
    n = 0 := by
  induction n using Nat.strongRecOn generalizing more with
  | ind n ih =>
    by_cases hn : n < 10
    · rw [Nat.toDigits_of_lt_base hn] at h
      have hdigit : ∀ n < 10, n.digitChar = '0' → n = 0 := by decide
      exact hdigit n hn (List.cons.inj h).1
    · have happend : Nat.toDigits 10 (n / 10) ++ Nat.toDigits 10 (n % 10) = Nat.toDigits 10 n := by
        rw [Nat.toDigits_append_toDigits (by omega) (by omega) (by omega), Nat.div_add_mod]
      cases hhead : Nat.toDigits 10 (n / 10) with
      | nil => exact absurd hhead Nat.toDigits_ne_nil
      | cons c tail =>
        rw [← happend, hhead, List.cons_append] at h
        obtain rfl := (List.cons.inj h).1
        have hzero := ih (n / 10) (by omega) hhead
        omega

theorem whole?_toDigits (n : ℕ) {r : List Char} (hr : Closes r) :
    whole? (Nat.toDigits 10 n ++ r) = some (Nat.toDigits 10 n, r) := by
  have hdigits : ∀ c ∈ Nat.toDigits 10 n, c.isDigit := fun c hc ↦
    Nat.isDigit_of_mem_toDigits (by omega) (by omega) hc
  have hread := digits?_append Nat.toDigits_ne_nil hdigits hr
  cases htext : Nat.toDigits 10 n with
  | nil => exact absurd htext Nat.toDigits_ne_nil
  | cons c more =>
    by_cases hc : c = '0'
    · subst hc
      obtain rfl := toDigits_zero_cons htext
      obtain rfl : more = [] := (List.cons.inj htext).2.symm
      rfl
    · rw [htext, List.cons_append] at hread
      rw [List.cons_append, whole?.eq_2 _ fun _ h ↦ hc (List.cons.inj h).1, hread]

theorem number?_toDigits (n : ℕ) {r : List Char} (hr : Closes r) :
    number? (Nat.toDigits 10 n ++ r) = some (.nat n, r) := by
  have hsign : sign ['-'] (Nat.toDigits 10 n ++ r) = ([], Nat.toDigits 10 n ++ r) := by
    obtain ⟨c, more, htext, hdigit⟩ := exists_toDigits n
    have hc : c ∉ ['-'] := by
      intro hmem
      obtain rfl := List.mem_singleton.mp hmem
      cases hdigit
    rw [htext, List.cons_append, sign, if_neg hc]
  have hfraction : fraction? r = some ([], r) := by
    unfold fraction?
    split
    · rcases hr '.' rfl with h | h | h <;> cases h
    · rfl
  have hexponent : exponent? r = some ([], r) := by
    cases r with
    | nil => rfl
    | cons c r =>
      have hc : c ∉ ['e', 'E'] := by
        rcases hr c rfl with rfl | rfl | rfl <;> decide
      rw [exponent?, sign, if_neg hc]
  simp only [number?, hsign, whole?_toDigits n hr, hfraction, hexponent, Option.bind_eq_bind,
    Option.bind_some, List.nil_append, List.append_nil, Option.pure_def, nat,
    Nat.toString_eq_ofList_toDigits]

end Reader

mutual

/-- The values whose text is read back: all of their numbers are whole and have no sign. -/
def Plain : Json → Prop
  | .number literal => ∃ n : ℕ, literal = toString n
  | .array items => PlainAll items
  | .object members => PlainMembers members
  | .unreadable => False
  | _ => True

def PlainAll : List Json → Prop
  | [] => True
  | item :: more => item.Plain ∧ PlainAll more

def PlainMembers : List (String × Json) → Prop
  | [] => True
  | (_, value) :: more => value.Plain ∧ PlainMembers more

end

theorem plainAll_iff {items : List Json} : PlainAll items ↔ ∀ item ∈ items, item.Plain := by
  induction items with
  | nil => exact iff_of_true trivial fun _ h ↦ absurd h List.not_mem_nil
  | cons item more ih => rw [PlainAll, ih, List.forall_mem_cons]

namespace Writer

theorem text_number (literal : String) : text (.number literal) = literal.toList := rfl

theorem text_string (s : String) : text (.string s) = stringText s := rfl

theorem text_array (items : List Json) :
    text (.array items) = '[' :: [','].intercalate (itemTexts items) ++ [']'] := rfl

theorem text_object (members : List (String × Json)) :
    text (.object members) = '{' :: [','].intercalate (memberTexts members) ++ ['}'] := rfl

end Writer

namespace Reader

open Writer

theorem object_some (members : List (String × Json)) :
    object (members.map fun member ↦ (some member.1, member.2)) = .object members := by
  have hread : ((members.map fun member ↦ (some member.1, member.2)).mapM fun member ↦
      Option.map (·, member.2) member.1) = some members := by
    induction members with
    | nil => rfl
    | cons member more ih =>
      rw [List.map_cons, List.mapM_cons, ih]
      rfl
  rw [object]
  split
  · rename_i found hfound
    obtain rfl : members = found := Option.some.inj (hread.symm.trans hfound)
    rfl
  · rename_i hnone
    cases hread.symm.trans hnone

theorem skip_cons {c : Char} (h : blank c = false) (r : List Char) : skip (c :: r) = c :: r := by
  rw [skip, List.dropWhile_cons_of_neg (by rw [h]; exact Bool.false_ne_true)]

theorem blank_of_isDigit {c : Char} (h : c.isDigit) : blank c = false := by
  by_contra hc
  simp only [blank, Bool.not_eq_false, Bool.or_eq_true, decide_eq_true_eq] at hc
  rcases hc with ((rfl | rfl) | rfl) | rfl <;> cases h

theorem value_of_isDigit {c : Char} (h : c.isDigit) (n : ℕ) (r : List Char) :
    value (n + 1) (c :: r) = number? (c :: r) := by
  rw [value, skip_cons (blank_of_isDigit h)]
  split
  case h_7 => rfl
  all_goals
    rename_i hr
    obtain rfl := (List.cons.inj hr).1
    cases h

theorem value_quote (n : ℕ) (r : List Char) : value (n + 1) ('"' :: r) =
    (codes r).map fun (codes, r) ↦ ((text? codes).elim .unreadable .string, r) := by
  rw [value, skip_cons rfl]
  change (codes r).bind _ = _
  cases codes r <;> rfl

theorem value_bracket {c : Char} (hblank : blank c = false) (hc : c ≠ ']') (n : ℕ)
    (r : List Char) : value (n + 1) ('[' :: c :: r) =
      (items n (c :: r)).map fun (items, r) ↦ (.array items, r) := by
  rw [value, skip_cons rfl]
  simp only [skip_cons hblank]
  split
  · rename_i hr
    exact absurd (List.cons.inj hr).1 hc
  · cases items n (c :: r) <;> rfl

theorem value_brace (n : ℕ) (r : List Char) : value (n + 1) ('{' :: '"' :: r) =
    (members n ('"' :: r)).map fun (members, r) ↦ (object members, r) := by
  rw [value, skip_cons rfl]
  change (members n ('"' :: r)).bind _ = _
  cases members n ('"' :: r) <;> rfl

section Lists

variable {n : ℕ} {c : Char} {s r r' : List Char} {item : Json}

theorem items_of_value {more : List Json} (h : value n s = some (item, c :: r))
    (hrest : c = ']' ∧ more = [] ∧ r = r' ∨ c = ',' ∧ items n r = some (more, r')) :
    items (n + 1) s = some (item :: more, r') := by
  rcases hrest with ⟨rfl, rfl, rfl⟩ | ⟨rfl, hmore⟩
  · rw [items, h]
    rfl
  · rw [items, h]
    change (items n r).bind _ = _
    rw [hmore]
    rfl

theorem members_of_value {more : List (Option String × Json)} (key : String)
    (h : value n s = some (item, c :: r))
    (hrest : c = '}' ∧ more = [] ∧ r = r' ∨ c = ',' ∧ members n r = some (more, r')) :
    members (n + 1) (stringText key ++ ':' :: s) = some ((some key, item) :: more, r') := by
  have hcodes := codes_stringText key.toList (':' :: s)
  rw [stringText, List.append_assoc, List.cons_append, List.singleton_append, members,
    skip_cons rfl]
  have hcolon : skip (':' :: s) = ':' :: s := skip_cons rfl s
  simp only [hcodes, Option.bind_eq_bind, Option.bind_some, hcolon, h, text?_map_toNat]
  rcases hrest with ⟨rfl, rfl, rfl⟩ | ⟨rfl, hmore⟩
  · rfl
  · change (members n r).bind _ = _
    rw [hmore]
    rfl

end Lists

theorem text_cons {j : Json} (h : j.Plain) :
    ∃ c more, text j = c :: more ∧ blank c = false ∧ c ≠ ']' := by
  cases j with
  | null => exact ⟨'n', _, rfl, rfl, by decide⟩
  | bool b =>
    cases b with
    | false => exact ⟨'f', _, rfl, rfl, by decide⟩
    | true => exact ⟨'t', _, rfl, rfl, by decide⟩
  | number literal =>
    rw [Plain] at h
    obtain ⟨n, rfl⟩ := h
    rw [text_number, Nat.toString_eq_ofList_toDigits, String.toList_ofList]
    obtain ⟨c, more, htext, hdigit⟩ := exists_toDigits n
    refine ⟨c, more, htext, blank_of_isDigit hdigit, ?_⟩
    rintro rfl
    cases hdigit
  | string s => exact ⟨'"', _, rfl, rfl, by decide⟩
  | array items => exact ⟨'[', _, rfl, rfl, by decide⟩
  | object members => exact ⟨'{', _, rfl, rfl, by decide⟩
  | unreadable => exact h.elim

theorem intercalate_cons {item : Json} (h : item.Plain) (more : List Json) :
    ∃ c tail, [','].intercalate (itemTexts (item :: more)) = c :: tail ∧ blank c = false ∧
      c ≠ ']' := by
  obtain ⟨c, tail, htext, hblank, hc⟩ := text_cons h
  cases more with
  | nil =>
    refine ⟨c, tail, ?_, hblank, hc⟩
    rw [itemTexts, itemTexts, List.intercalate_singleton, htext]
  | cons next more =>
    refine ⟨c, tail ++ [','] ++ [','].intercalate (itemTexts (next :: more)), ?_, hblank, hc⟩
    rw [itemTexts, itemTexts, List.intercalate_cons_cons, htext]
    simp only [List.cons_append]

theorem exists_memberTexts (key : String) (item : Json) (more : List (String × Json)) :
    ∃ tail, [','].intercalate (memberTexts ((key, item) :: more)) = '"' :: tail := by
  cases more with
  | nil => exact ⟨_, rfl⟩
  | cons next more => exact ⟨_, rfl⟩

mutual

/-- What is written for a value is read as this value, if the depth of the calls is bounded by
twice the length of the text or more. -/
theorem value_text : ∀ {j : Json}, j.Plain → ∀ {n : ℕ} {r : List Char},
    2 * (text j).length ≤ n → Closes r → value n (text j ++ r) = some (j, r)
  | j, h, 0, r, hn, _ => by
    obtain ⟨c, more, htext, -, -⟩ := text_cons h
    rw [htext, List.length_cons] at hn
    omega
  | .null, _, n + 1, r, _, _ => rfl
  | .bool true, _, n + 1, r, _, _ => rfl
  | .bool false, _, n + 1, r, _, _ => rfl
  | .number literal, h, n + 1, r, _, hr => by
    rw [Plain] at h
    obtain ⟨m, rfl⟩ := h
    have hread := number?_toDigits m hr
    obtain ⟨c, more, htext, hdigit⟩ := exists_toDigits m
    rw [text_number, Nat.toString_eq_ofList_toDigits, String.toList_ofList]
    rw [htext, List.cons_append] at hread ⊢
    rw [value_of_isDigit hdigit, hread, nat, Nat.toString_eq_ofList_toDigits, htext]
  | .string s, _, n + 1, r, _, _ => by
    have hcodes := codes_stringText s.toList r
    rw [text_string, stringText, List.append_assoc, List.cons_append, List.singleton_append,
      value_quote, hcodes]
    simp only [Option.map_some, text?_map_toNat, Option.elim_some]
  | .array [], _, n + 1, r, _, _ => rfl
  | .array (item :: more), h, n + 1, r, hn, _ => by
    rw [text_array] at hn ⊢
    have hbound : 2 * ([','].intercalate (itemTexts (item :: more))).length < n := by
      simp only [List.length_append, List.length_cons, List.length_nil] at hn
      omega
    have hread := items_texts h hbound (r := r)
    obtain ⟨c, tail, htext, hblank, hc⟩ := intercalate_cons h.1 more
    rw [htext, List.cons_append] at hread
    rw [htext, List.append_assoc, List.cons_append, List.cons_append, List.singleton_append,
      value_bracket hblank hc, hread]
    rfl
  | .object [], _, n + 1, r, _, _ => rfl
  | .object ((key, item) :: more), h, n + 1, r, hn, _ => by
    rw [text_object] at hn ⊢
    have hbound : 2 * ([','].intercalate (memberTexts ((key, item) :: more))).length < n := by
      simp only [List.length_append, List.length_cons, List.length_nil] at hn
      omega
    have hread := members_texts h hbound (r := r)
    obtain ⟨tail, htext⟩ := exists_memberTexts key item more
    rw [htext, List.cons_append] at hread
    rw [htext, List.append_assoc, List.cons_append, List.cons_append, List.singleton_append,
      value_brace, hread]
    simp only [Option.map_some, object_some]

theorem items_texts : ∀ {item : Json} {more : List Json}, PlainAll (item :: more) →
    ∀ {n : ℕ}, 2 * ([','].intercalate (itemTexts (item :: more))).length < n →
      ∀ {r : List Char},
        items n ([','].intercalate (itemTexts (item :: more)) ++ ']' :: r) =
          some (item :: more, r)
  | _, _, _, 0, hn, _ => absurd hn (Nat.not_lt_zero _)
  | item, [], h, n + 1, hn, r => by
    rw [itemTexts, itemTexts, List.intercalate_singleton] at hn ⊢
    have hitem := value_text h.1 (Nat.le_of_lt_succ hn) (closes_cons (.inr (.inl rfl)) r)
    exact items_of_value hitem (.inl ⟨rfl, rfl, rfl⟩)
  | item, next :: more, h, n + 1, hn, r => by
    rw [itemTexts, itemTexts, List.intercalate_cons_cons, ← itemTexts] at hn ⊢
    simp only [List.length_append, List.length_singleton] at hn
    have hitem := value_text h.1 (n := n) (by omega) (closes_cons (.inl rfl)
      ([','].intercalate (itemTexts (next :: more)) ++ ']' :: r))
    have hmore := items_texts h.2 (n := n) (by omega) (r := r)
    rw [List.append_assoc, List.append_assoc, List.singleton_append]
    exact items_of_value hitem (.inr ⟨rfl, hmore⟩)

theorem members_texts : ∀ {key : String} {item : Json} {more : List (String × Json)},
    PlainMembers ((key, item) :: more) →
      ∀ {n : ℕ}, 2 * ([','].intercalate (memberTexts ((key, item) :: more))).length < n →
        ∀ {r : List Char},
          members n ([','].intercalate (memberTexts ((key, item) :: more)) ++ '}' :: r) =
            some (((key, item) :: more).map fun member ↦ (some member.1, member.2), r)
  | _, _, _, _, 0, hn, _ => absurd hn (Nat.not_lt_zero _)
  | key, item, [], h, n + 1, hn, r => by
    rw [memberTexts, memberTexts, List.intercalate_singleton] at hn ⊢
    simp only [List.length_append, List.length_cons] at hn
    have hitem := value_text h.1 (n := n) (by omega) (closes_cons (.inr (.inr rfl)) r)
    rw [List.append_assoc, List.cons_append]
    exact members_of_value key hitem (.inl ⟨rfl, rfl, rfl⟩)
  | key, item, (next, later) :: more, h, n + 1, hn, r => by
    rw [memberTexts, memberTexts, List.intercalate_cons_cons, ← memberTexts] at hn ⊢
    simp only [List.length_append, List.length_cons] at hn
    have hitem := value_text h.1 (n := n) (by omega) (closes_cons (.inl rfl)
      ([','].intercalate (memberTexts ((next, later) :: more)) ++ '}' :: r))
    have hmore := members_texts h.2 (n := n) (by omega) (r := r)
    rw [List.append_assoc, List.append_assoc, List.append_assoc, List.cons_append,
      List.singleton_append]
    exact members_of_value key hitem (.inr ⟨rfl, hmore⟩)

end

end Reader

theorem read?_write {j : Json} (h : j.Plain) : read? j.write = some j := by
  have hlength : j.write.length = (Writer.text j).length := String.length_ofList
  have hvalue := Reader.value_text h (n := 2 * j.write.length + 2) (r := []) (by omega)
    fun c hc ↦ absurd hc (Option.not_mem_none c)
  rw [List.append_nil] at hvalue
  rw [read?, write, String.toList_ofList]
  rw [write] at hvalue
  rw [hvalue]
  rfl

end Listing.Json
