/-
  Reading back the text of a JSON value.

  * `readString_quoted`: a string, whatever characters are in it;
  * `readNumber_toText`: a whole number of at most 64 bits;
  * `IsWhole`: the values whose numbers are such ones; `IsWhole.isRead` is by induction
    over these values, and `ofText?_toText` says that the text of one holds this value.
-/
import Mathlib.Data.List.Basic
import Matchbook.Json.Printer
import Matchbook.Json.Reader

namespace Matchbook.Json

/-! ## Strings -/

theorem number?_byte {n : Nat} (h : n < 32) : Hex.number? ('0' :: '0' :: Hex.byte n) = some n := by
  revert n
  decide

theorem ofCodePoint?_toNat (c : Char) : Hex.ofCodePoint? c.toNat = some c := by
  have hvalid : c.toNat.isValidChar := c.valid
  rw [Hex.ofCodePoint?, dif_pos hvalid]
  exact congrArg some (Char.ext (UInt32.toNat_inj.1 rfl))

/-- A character is read as it was written. -/
theorem readString_quotedChar (fuel : Nat) (out : List Char) (c : Char) (text : List Char) :
    readString (fuel + 1) out (quotedChar c ++ text) = readString fuel (c :: out) text := by
  by_cases hquote : c = '"'
  · subst hquote
    rfl
  by_cases hslash : c = '\\'
  · subst hslash
    rfl
  by_cases hcontrol : c.toNat < 32
  · have hread := number?_byte hcontrol
    have hlow : ¬ (0xD800 ≤ c.toNat ∧ c.toNat < 0xDC00) := by omega
    rw [Hex.byte] at hread
    simp [quotedChar, readString, readEscape, readCodePoint, Hex.byte, hquote, hslash, hcontrol,
      hread, hlow, ofCodePoint?_toNat]
  · simp [quotedChar, readString, hquote, hslash, hcontrol]

theorem readString_flatMap (cs : List Char) {fuel : Nat} (h : cs.length < fuel)
    (out rest : List Char) : readString fuel out (cs.flatMap quotedChar ++ '"' :: rest) =
      some (String.ofList (out.reverse ++ cs), rest) := by
  induction cs generalizing fuel out with
  | nil =>
    obtain ⟨fuel, rfl⟩ := Nat.exists_eq_succ_of_ne_zero (Nat.ne_of_gt h)
    simp [readString]
  | cons c cs ih =>
    obtain ⟨fuel, rfl⟩ := Nat.exists_eq_succ_of_ne_zero (Nat.ne_zero_of_lt h)
    rw [List.flatMap_cons, List.append_assoc, readString_quotedChar,
      ih (Nat.lt_of_succ_lt_succ h), List.reverse_cons, List.append_assoc, List.singleton_append]

theorem length_le_flatMap_quotedChar (cs : List Char) :
    cs.length ≤ (cs.flatMap quotedChar).length := by
  have hpos : ∀ c, 1 ≤ (quotedChar c).length := by
    intro c
    unfold quotedChar
    split_ifs <;> simp
  induction cs with
  | nil => exact Nat.le_refl _
  | cons c cs ih =>
    rw [List.flatMap_cons, List.length_append, List.length_cons, Nat.add_comm]
    exact Nat.add_le_add (hpos c) ih

/-- **A string** is read as it was written. -/
theorem readString_quoted (s : String) (rest : List Char) : ∃ text,
    (quoted s).toList ++ rest = '"' :: text ∧
      readString (text.length + 1) [] text = some (s, rest) := by
  refine ⟨s.toList.flatMap quotedChar ++ '"' :: rest, by simp [quoted], ?_⟩
  rw [readString_flatMap, List.reverse_nil, List.nil_append, String.ofList_toList]
  have := length_le_flatMap_quotedChar s.toList
  rw [List.length_append]
  omega

/-! ## Numbers -/

/-- No number goes on with this text. -/
def EndsNumber (rest : List Char) : Prop :=
  ∀ c ∈ rest.head?, c.isDigit = false ∧ c ≠ '.' ∧ c ≠ 'e' ∧ c ≠ 'E'

/-- A number has a first digit. -/
theorem toDigits_cons (n : Nat) : ∃ d ds, Nat.toDigits 10 n = d :: ds ∧ d.isDigit = true := by
  obtain ⟨d, ds, hds⟩ := List.exists_cons_of_ne_nil (Nat.toDigits_ne_nil (n := n) (b := 10))
  exact ⟨d, ds, hds,
    Nat.isDigit_of_mem_toDigits (by decide) (by decide) (hds ▸ List.mem_cons_self)⟩

theorem spanDigits_toDigits (n : Nat) {rest : List Char} (h : EndsNumber rest) :
    spanDigits (Nat.toDigits 10 n ++ rest) = (Nat.toDigits 10 n, rest) := by
  have hdigits : ∀ c ∈ Nat.toDigits 10 n, c.isDigit = true := fun _ hc =>
    Nat.isDigit_of_mem_toDigits (by decide) (by decide) hc
  have hrest : rest.takeWhile Char.isDigit = [] ∧ rest.dropWhile Char.isDigit = rest := by
    cases rest with
    | nil => exact ⟨rfl, rfl⟩
    | cons c rest => simp [(h c rfl).1]
  rw [spanDigits, List.takeWhile_append_of_pos hdigits, List.dropWhile_append_of_pos hdigits,
    hrest.1, hrest.2, List.append_nil]

theorem numberOf_toDigits (n : Nat) : numberOf (Nat.toDigits 10 n) = n := by
  have hread : numberOf (Nat.toDigits 10 n) = Nat.ofDigitChars 10 (Nat.toDigits 10 n) 0 := by
    rw [Nat.ofDigitChars_eq_foldl, numberOf]
    simp only [Nat.mul_comm 10]
    rfl
  rw [hread, Nat.ofDigitChars_ten_toDigits]

/-- No zero comes first, but for zero itself. -/
theorem head?_toDigits (n : Nat) : (Nat.toDigits 10 n).head? = some '0' → n = 0 := by
  induction n using Nat.strongRecOn with
  | _ n ih =>
    rw [Nat.toDigits_eq_if (by decide)]
    split
    · next hlt =>
      clear ih
      revert n
      decide
    · next hge =>
      rw [List.head?_append_of_ne_nil _ Nat.toDigits_ne_nil]
      intro hhead
      have := ih (n / 10) (by omega) hhead
      omega

theorem readPower_of_ends {rest : List Char} (h : EndsNumber rest) :
    readPower rest = some (none, rest) := by
  cases rest with
  | nil => rfl
  | cons c rest => simp [readPower, h c rfl]

theorem toList_toText_integer (n : Int) : (toText (integer n)).toList =
    (if n < 0 then ['-'] else []) ++ Nat.toDigits 10 n.natAbs := by
  cases n with
  | ofNat m => exact Nat.toList_repr
  | negSucc m =>
    rw [if_pos (Int.negSucc_lt_zero m)]
    show ("-" ++ Nat.repr (m + 1)).toList = _
    rw [String.toList_append, Nat.toList_repr]
    rfl

theorem readFraction_of_ends {rest : List Char} (h : EndsNumber rest) :
    readFraction rest = some (none, rest) := by
  cases rest with
  | nil => rfl
  | cons c rest =>
    unfold readFraction
    split
    · next heq => exact absurd (List.cons.inj heq).1 (h c rfl).2.1
    · rfl

theorem takeMinus_toText (n : Int) (rest : List Char) :
    takeMinus ((toText (integer n)).toList ++ rest) =
      (decide (n < 0), Nat.toDigits 10 n.natAbs ++ rest) := by
  rw [toList_toText_integer]
  by_cases hneg : n < 0
  · simp [hneg, takeMinus]
  · obtain ⟨d, ds, hds, hd⟩ := toDigits_cons n.natAbs
    simp only [hneg, if_false, List.nil_append, decide_false, hds, List.cons_append]
    unfold takeMinus
    split
    · next heq =>
      rw [(List.cons.inj heq).1] at hd
      cases hd
    · rfl

/-- **A whole number** of at most 64 bits is read as it was written. -/
theorem readNumber_toText {n : Int} (hmin : Int64.minValue.toInt ≤ n) (hmax : n < UInt64.size)
    {rest : List Char} (h : EndsNumber rest) :
    readNumber ((toText (integer n)).toList ++ rest) = some (integer n, rest) := by
  have hzero : ((Nat.toDigits 10 n.natAbs).head? == some '0' &&
      decide ((Nat.toDigits 10 n.natAbs).length > 1)) = false := by
    rw [Bool.and_eq_false_iff]
    by_cases hhead : (Nat.toDigits 10 n.natAbs).head? = some '0'
    · rw [head?_toDigits _ hhead]
      exact .inr rfl
    · exact .inl (beq_eq_false_iff_ne.2 hhead)
  have hempty : (Nat.toDigits 10 n.natAbs).isEmpty = false := by simp
  unfold readNumber
  simp only [takeMinus_toText, spanDigits_toDigits _ h, hempty, hzero, readFraction_of_ends h,
    readPower_of_ends h, numberOf_toDigits]
  by_cases hneg : n < 0
  · have habs : -(n.natAbs : Int) = n := by omega
    have hne : n.natAbs ≠ 0 := by omega
    simp only [habs, decide_eq_true hneg, decide_eq_true hmin, bne_iff_ne.2 hne]
    rfl
  · have habs : (n.natAbs : Int) = n := by omega
    have hfits : n.natAbs < UInt64.size := by omega
    simp [hneg, habs, hfits]

/-! ## Values -/

/-- The numbers of the value are whole and have at most 64 bits. -/
inductive IsWhole : Json → Prop
  | null : IsWhole .null
  | bool (b : Bool) : IsWhole (.bool b)
  | integer {n : Int} : Int64.minValue.toInt ≤ n → n < UInt64.size → IsWhole (.integer n)
  | string (s : String) : IsWhole (.string s)
  | array {items : List Json} : (∀ j ∈ items, IsWhole j) → IsWhole (.array items)
  | object {members : List (String × Json)} : (∀ m ∈ members, IsWhole m.2) →
    IsWhole (.object members)

theorem skipBlanks_cons {c : Char} (h : isBlank c = false) (text : List Char) :
    skipBlanks (c :: text) = c :: text := by
  simp [skipBlanks, h]

theorem endsNumber_cons {c : Char} (h : c.isDigit = false ∧ c ≠ '.' ∧ c ≠ 'e' ∧ c ≠ 'E')
    (text : List Char) : EndsNumber (c :: text) := by
  rintro _ ⟨⟩
  exact h

/-- A number starts with a digit or a minus sign. -/
theorem toText_integer_cons (n : Int) : ∃ c text,
    (toText (integer n)).toList = c :: text ∧ (c.isDigit = true ∨ c = '-') := by
  rw [toList_toText_integer]
  by_cases hneg : n < 0
  · exact ⟨'-', Nat.toDigits 10 n.natAbs, by simp [hneg], .inr rfl⟩
  · obtain ⟨d, ds, hds, hd⟩ := toDigits_cons n.natAbs
    exact ⟨d, ds, by simp [hneg, hds], .inl hd⟩

theorem ne_of_starts_number {c : Char} (h : c.isDigit = true ∨ c = '-') (d : Char)
    (hdigit : d.isDigit = false) (hminus : d ≠ '-') : c ≠ d := by
  rintro rfl
  rcases h with h | h
  · rw [h] at hdigit
    cases hdigit
  · exact hminus h

theorem isBlank_of_starts_number {c : Char} (h : c.isDigit = true ∨ c = '-') :
    isBlank c = false := by
  have hne := ne_of_starts_number h
  simp [isBlank, hne ' ' rfl (by decide), hne '\n' rfl (by decide), hne '\r' rfl (by decide),
    hne '\t' rfl (by decide)]

/-- Where a number starts, a number is read. -/
theorem readValue_of_starts_number {c : Char} (h : c.isDigit = true ∨ c = '-') (fuel : Nat)
    (text : List Char) : readValue (fuel + 1) (c :: text) = readNumber (c :: text) := by
  rw [readValue, skipBlanks_cons (isBlank_of_starts_number h)]
  split <;> next heq => first
    | rfl
    | exact absurd (List.cons.inj heq).1 (ne_of_starts_number h _ rfl (by decide))
    | cases heq

/-- The text of a value starts with neither a blank nor the end of an array. -/
theorem IsWhole.toText_cons {j : Json} (h : IsWhole j) : ∃ c text,
    (toText j).toList = c :: text ∧ isBlank c = false ∧ c ≠ ']' := by
  cases h with
  | null => exact ⟨'n', ['u', 'l', 'l'], by simp [toText], rfl, by decide⟩
  | bool b =>
    cases b with
    | false => exact ⟨'f', ['a', 'l', 's', 'e'], by simp [toText], rfl, by decide⟩
    | true => exact ⟨'t', ['r', 'u', 'e'], by simp [toText], rfl, by decide⟩
  | @integer n _ _ =>
    obtain ⟨c, text, htext, hc⟩ := toText_integer_cons n
    exact ⟨c, text, htext, isBlank_of_starts_number hc, ne_of_starts_number hc _ rfl (by decide)⟩
  | string s =>
    exact ⟨'"', s.toList.flatMap quotedChar ++ ['"'], by simp [toText, quoted], rfl, by decide⟩
  | @array items _ =>
    exact ⟨'[', (itemsText items).toList ++ [']'], by simp [toText], rfl, by decide⟩
  | @object members _ =>
    exact ⟨'\x7b', (membersText members).toList ++ ['\x7d'], by simp [toText], rfl, by decide⟩

/-- The value is read where its text comes first and a number would end behind it; the
    length of the text is fuel enough. -/
def IsRead (j : Json) : Prop :=
  ∀ (fuel : Nat) (rest : List Char), (toText j).toList.length ≤ fuel → EndsNumber rest →
    readValue fuel ((toText j).toList ++ rest) = some (j, rest)

theorem isRead_string (s : String) : IsRead (string s) := by
  intro fuel rest hfuel _
  obtain ⟨text, htext, hread⟩ := readString_quoted s rest
  obtain ⟨fuel, rfl⟩ : ∃ n, fuel = n + 1 := by
    refine Nat.exists_eq_succ_of_ne_zero fun hzero => ?_
    simp [hzero, toText, quoted] at hfuel
  rw [toText, htext, readValue, skipBlanks_cons rfl]
  simp [hread]

theorem isRead_integer {n : Int} (hmin : Int64.minValue.toInt ≤ n) (hmax : n < UInt64.size) :
    IsRead (integer n) := by
  intro fuel rest hfuel hrest
  obtain ⟨c, text, htext, hc⟩ := toText_integer_cons n
  have hread := readNumber_toText hmin hmax hrest
  rw [htext] at hfuel hread ⊢
  obtain ⟨fuel, rfl⟩ := Nat.exists_eq_succ_of_ne_zero (Nat.ne_zero_of_lt hfuel)
  rw [List.cons_append, readValue_of_starts_number hc, ← List.cons_append, hread]

/-- An item of an array is read, and more if a comma comes behind it. -/
theorem readItems_item {j : Json} (hj : IsRead j) {fuel : Nat}
    (hfuel : (toText j).toList.length ≤ fuel) (out : List Json) (rest : List Char) :
    readItems (fuel + 1) out ((toText j).toList ++ ',' :: rest) = readItems fuel (j :: out) rest ∧
      readItems (fuel + 1) out ((toText j).toList ++ ']' :: rest) =
        some (array (out.reverse ++ [j]), rest) := by
  have hcomma := hj fuel (',' :: rest) hfuel (endsNumber_cons (by decide) rest)
  have hclose := hj fuel (']' :: rest) hfuel (endsNumber_cons (by decide) rest)
  constructor
  · simp [readItems, hcomma, skipBlanks_cons (c := ',') rfl]
  · simp [readItems, hclose, skipBlanks_cons (c := ']') rfl]

theorem toList_itemsText_cons_cons (j j' : Json) (items : List Json) :
    (itemsText (j :: j' :: items)).toList =
      (toText j).toList ++ ',' :: (itemsText (j' :: items)).toList := by
  rw [itemsText]
  · simp
  · exact nofun

theorem readItems_itemsText {items : List Json} (h : ∀ j ∈ items, IsRead j) (hne : items ≠ [])
    {fuel : Nat} (hfuel : (itemsText items).toList.length < fuel) (out : List Json)
    (rest : List Char) : readItems fuel out ((itemsText items).toList ++ ']' :: rest) =
      some (array (out.reverse ++ items), rest) := by
  induction items generalizing fuel out with
  | nil => exact absurd rfl hne
  | cons j items ih =>
    obtain ⟨hj, hitems⟩ := List.forall_mem_cons.1 h
    obtain ⟨fuel, rfl⟩ := Nat.exists_eq_succ_of_ne_zero (Nat.ne_zero_of_lt hfuel)
    cases items with
    | nil =>
      rw [itemsText] at hfuel ⊢
      exact (readItems_item hj (Nat.le_of_lt_succ hfuel) out rest).2
    | cons j' items =>
      rw [toList_itemsText_cons_cons, List.length_append, List.length_cons] at hfuel
      rw [toList_itemsText_cons_cons, List.append_assoc, List.cons_append,
        (readItems_item hj (by omega) out _).1,
        ih hitems (List.cons_ne_nil _ _) (by omega) (j :: out)]
      simp

/-- A member of an object is read, and more if a comma comes behind it. -/
theorem readMembers_member {name : String} {j : Json} (hj : IsRead j) {fuel : Nat}
    (hfuel : (toText j).toList.length ≤ fuel) (out : List (String × Json)) (rest : List Char) :
    readMembers (fuel + 1) out ((quoted name).toList ++ ':' :: ((toText j).toList ++ ',' :: rest)) =
        readMembers fuel ((name, j) :: out) rest ∧
      readMembers (fuel + 1) out
          ((quoted name).toList ++ ':' :: ((toText j).toList ++ '\x7d' :: rest)) =
        some (object (out.reverse ++ [(name, j)]), rest) := by
  have hcomma := hj fuel (',' :: rest) hfuel (endsNumber_cons (by decide) rest)
  have hclose := hj fuel ('\x7d' :: rest) hfuel (endsNumber_cons (by decide) rest)
  have hname := readString_quoted name
  constructor
  · obtain ⟨text, htext, hname⟩ := hname (':' :: ((toText j).toList ++ ',' :: rest))
    simp [htext, readMembers, hname, skipBlanks_cons (c := '"') rfl, skipBlanks_cons (c := ':') rfl,
      hcomma, skipBlanks_cons (c := ',') rfl]
  · obtain ⟨text, htext, hname⟩ := hname (':' :: ((toText j).toList ++ '\x7d' :: rest))
    simp [htext, readMembers, hname, skipBlanks_cons (c := '"') rfl, skipBlanks_cons (c := ':') rfl,
      hclose, skipBlanks_cons (c := '\x7d') rfl]

theorem toList_membersText_singleton (name : String) (j : Json) :
    (membersText [(name, j)]).toList = (quoted name).toList ++ ':' :: (toText j).toList := by
  rw [membersText]
  simp

theorem toList_membersText_cons_cons (name : String) (j : Json) (m' : String × Json)
    (members : List (String × Json)) : (membersText ((name, j) :: m' :: members)).toList =
      (quoted name).toList ++
        ':' :: ((toText j).toList ++ ',' :: (membersText (m' :: members)).toList) := by
  rw [membersText]
  · simp
  · exact nofun

theorem readMembers_membersText {members : List (String × Json)} (h : ∀ m ∈ members, IsRead m.2)
    (hne : members ≠ []) {fuel : Nat} (hfuel : (membersText members).toList.length < fuel)
    (out : List (String × Json)) (rest : List Char) :
    readMembers fuel out ((membersText members).toList ++ '\x7d' :: rest) =
      some (object (out.reverse ++ members), rest) := by
  induction members generalizing fuel out with
  | nil => exact absurd rfl hne
  | cons m members ih =>
    obtain ⟨name, j⟩ := m
    obtain ⟨(hj : IsRead j), hmembers⟩ := List.forall_mem_cons.1 h
    obtain ⟨fuel, rfl⟩ := Nat.exists_eq_succ_of_ne_zero (Nat.ne_zero_of_lt hfuel)
    cases members with
    | nil =>
      rw [toList_membersText_singleton, List.length_append, List.length_cons] at hfuel
      rw [toList_membersText_singleton, List.append_assoc, List.cons_append]
      exact (readMembers_member hj (by omega) out rest).2
    | cons m' members =>
      rw [toList_membersText_cons_cons, List.length_append, List.length_cons, List.length_append,
        List.length_cons] at hfuel
      rw [toList_membersText_cons_cons, List.append_assoc, List.cons_append, List.append_assoc,
        List.cons_append, (readMembers_member hj (by omega) out _).1,
        ih hmembers (List.cons_ne_nil _ _) (by omega) ((name, j) :: out)]
      simp

theorem itemsText_cons {j : Json} (h : IsWhole j) (items : List Json) : ∃ c text,
    (itemsText (j :: items)).toList = c :: text ∧ isBlank c = false ∧ c ≠ ']' := by
  obtain ⟨c, text, htext, hc⟩ := h.toText_cons
  cases items with
  | nil => exact ⟨c, text, by rw [itemsText, htext], hc⟩
  | cons j' items =>
    refine ⟨c, text ++ ',' :: (itemsText (j' :: items)).toList, ?_, hc⟩
    rw [toList_itemsText_cons_cons, htext, List.cons_append]

theorem isRead_array {items : List Json} (hwhole : ∀ j ∈ items, IsWhole j)
    (h : ∀ j ∈ items, IsRead j) : IsRead (array items) := by
  intro fuel rest hfuel _
  have htext : (toText (array items)).toList = '[' :: ((itemsText items).toList ++ [']']) := by
    simp [toText]
  rw [htext, List.length_cons, List.length_append, List.length_singleton] at hfuel
  obtain ⟨fuel, rfl⟩ := Nat.exists_eq_succ_of_ne_zero (Nat.ne_zero_of_lt hfuel)
  rw [htext, List.cons_append, List.append_assoc, List.singleton_append, readValue,
    skipBlanks_cons rfl]
  cases items with
  | nil => simp [itemsText, skipBlanks_cons (c := ']') rfl]
  | cons j items =>
    have hread := readItems_itemsText h (List.cons_ne_nil j items) (Nat.lt_of_succ_lt_succ hfuel) []
      rest
    obtain ⟨c, text, hitems, hblank, hclose⟩ := itemsText_cons (hwhole j List.mem_cons_self) items
    rw [hitems, List.cons_append] at hread ⊢
    simp only [skipBlanks_cons hblank]
    split
    · next heq => exact absurd (List.cons.inj heq).1 hclose
    · exact hread

theorem membersText_cons (m : String × Json) (members : List (String × Json)) : ∃ text,
    (membersText (m :: members)).toList = '"' :: text := by
  obtain ⟨name, j⟩ := m
  have hquoted : (quoted name).toList = '"' :: (name.toList.flatMap quotedChar ++ ['"']) := by
    simp [quoted]
  cases members with
  | nil =>
    rw [toList_membersText_singleton, hquoted]
    exact ⟨_, rfl⟩
  | cons m' members =>
    rw [toList_membersText_cons_cons, hquoted]
    exact ⟨_, rfl⟩

theorem isRead_object {members : List (String × Json)} (h : ∀ m ∈ members, IsRead m.2) :
    IsRead (object members) := by
  intro fuel rest hfuel _
  have htext : (toText (object members)).toList =
      '\x7b' :: ((membersText members).toList ++ ['\x7d']) := by
    simp [toText]
  rw [htext, List.length_cons, List.length_append, List.length_singleton] at hfuel
  obtain ⟨fuel, rfl⟩ := Nat.exists_eq_succ_of_ne_zero (Nat.ne_zero_of_lt hfuel)
  rw [htext, List.cons_append, List.append_assoc, List.singleton_append, readValue,
    skipBlanks_cons rfl]
  cases members with
  | nil => simp [membersText, skipBlanks_cons (c := '\x7d') rfl]
  | cons m members =>
    have hread := readMembers_membersText h (List.cons_ne_nil m members)
      (Nat.lt_of_succ_lt_succ hfuel) [] rest
    obtain ⟨text, hmembers⟩ := membersText_cons m members
    rw [hmembers, List.cons_append] at hread ⊢
    exact hread

/-- A word that stands for a value is read. -/
theorem isRead_word {j : Json} (c : Char) (word : List Char) (htext : (toText j).toList = c :: word)
    (hread : ∀ fuel rest, readValue (fuel + 1) (c :: (word ++ rest)) = some (j, rest)) :
    IsRead j := by
  intro fuel rest hfuel _
  rw [htext] at hfuel ⊢
  obtain ⟨fuel, rfl⟩ := Nat.exists_eq_succ_of_ne_zero (Nat.ne_zero_of_lt hfuel)
  exact hread fuel rest

/-- **Behind its text a value is read**, by induction over the value. -/
theorem IsWhole.isRead {j : Json} (h : IsWhole j) : IsRead j := by
  induction h with
  | null => exact isRead_word 'n' ['u', 'l', 'l'] (by simp [toText]) fun _ _ => rfl
  | bool b =>
    cases b with
    | false => exact isRead_word 'f' ['a', 'l', 's', 'e'] (by simp [toText]) fun _ _ => rfl
    | true => exact isRead_word 't' ['r', 'u', 'e'] (by simp [toText]) fun _ _ => rfl
  | integer hmin hmax => exact isRead_integer hmin hmax
  | string s => exact isRead_string s
  | array hitems ih => exact isRead_array hitems ih
  | object _ ih => exact isRead_object ih

/-- **The text of a value** holds this value, if its numbers are whole. -/
theorem ofText?_toText {j : Json} (h : IsWhole j) : ofText? j.toText = some j := by
  have hread := h.isRead (j.toText.toList.length + 1) [] (Nat.le_succ _) (fun _ hc => nomatch hc)
  rw [List.append_nil] at hread
  simp [ofText?, hread, skipBlanks]

end Matchbook.Json
