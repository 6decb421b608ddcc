import Apidoc.Json.Printer
import Apidoc.Json.Reader

/-!
# `Apidoc.Proofs.Json.Printed`: reading what was printed

A value without numbers, whose objects have distinct names, is read as it was printed (`read_print`).
The proof goes through the layers of the reader: digits, the escape of one character
(`readString_printChar`), strings, and values. The fuel of the reader bounds its steps. Every step
passes a character, so fuel for the length of a text is enough (`reads`).

Numbers are left out. An integer may be too long for the reader, and nothing can be proved about how
floating-point numbers are computed.
-/

set_option autoImplicit false

namespace Apidoc.Json

variable {start fuel position : Nat} {rest : List Char}

/-! ### Hexadecimal digits -/

/-- A digit is read as its value. -/
theorem hexDigit?_digitChar {d : Nat} (h : d < 16) : hexDigit? d.digitChar = some d := by
  revert d
  decide

/-- The digits of a number are read as the number. -/
theorem foldlM_toDigits (n : Nat) :
    (Nat.toDigits 16 n).foldlM (fun n c => (hexDigit? c).map (16 * n + ·)) 0 = some n := by
  induction n using Nat.strongRecOn with
  | _ n ih =>
    rw [Nat.toDigits_eq_if (by decide)]
    split
    · rename_i hsmall
      simp [hexDigit?_digitChar hsmall]
    · have hless : n / 16 < n := by omega
      have hlast := hexDigit?_digitChar (Nat.mod_lt n (by decide : 0 < 16))
      rw [List.foldlM_append, ih (n / 16) hless]
      simp [hlast, Nat.div_add_mod]

/-- Zeros in front of digits do not count. -/
theorem foldlM_zeros (k : Nat) (digits : List Char) :
    (List.replicate k '0' ++ digits).foldlM (fun n c => (hexDigit? c).map (16 * n + ·)) 0 =
      digits.foldlM (fun n c => (hexDigit? c).map (16 * n + ·)) 0 := by
  induction k with
  | zero => rfl
  | succ k ih =>
    rw [List.replicate_succ, List.cons_append, List.foldlM_cons]
    exact ih

/-- A number of two bytes has four digits. -/
theorem length_hex {n : Nat} (h : n < 0x10000) : (Text.hex 4 n).length = 4 := by
  have hdigits : (Nat.toDigits 16 n).length ≤ 4 :=
    (Nat.length_toDigits_le_iff (by decide) (by decide)).mpr h
  rw [Text.hex, List.length_append, List.length_replicate]
  omega

/-- The four digits of a number are read as the number, whatever follows. -/
theorem hexFour?_hex {n : Nat} (h : n < 0x10000) (rest : List Char) :
    hexFour? (Text.hex 4 n ++ rest) = some n := by
  have hlength := length_hex h
  have hlong : ¬ (Text.hex 4 n ++ rest).length < 4 := by
    rw [List.length_append]
    omega
  rw [hexFour?, if_neg hlong, List.take_left' hlength]
  exact (foldlM_zeros _ _).trans (foldlM_toDigits n)

/-! ### Strings -/

/-- The number of a character is no half of a surrogate pair, and has a bound. -/
theorem toNat_valid (c : Char) :
    c.toNat < 0xD800 ∨ 0xDFFF < c.toNat ∧ c.toNat < 0x110000 := c.valid

/-- An escape has six characters. -/
theorem length_unitEscape {n : Nat} (h : n < 0x10000) : (unitEscape n).length = 6 := by
  rw [unitEscape, List.length_cons, List.length_cons, length_hex h]

/-- More than the digits of an escape is left if something follows. -/
theorem four_lt_length_hex {n : Nat} (h : n < 0x10000) (hrest : rest ≠ []) :
    ¬ (Text.hex 4 n ++ rest).length ≤ 4 := by
  have hpos := List.length_pos_iff.mpr hrest
  rw [List.length_append, length_hex h]
  omega

/-- The escape of a unit that is no half of a pair is read as its character. -/
theorem readString_unitEscape {n : Nat} (h : n < 0x10000) (hwhole : ¬ (0xD800 ≤ n ∧ n < 0xE000))
    (hrest : rest ≠ []) :
    readString start (fuel + 1) ⟨position, unitEscape n ++ rest⟩ = (do
      let (cs, after) ← readString start fuel ⟨position + (unitEscape n).length, rest⟩
      .ok (Char.ofNat n :: cs, after)) := by
  have hhigh : ¬ (0xD800 ≤ n ∧ n < 0xDC00) := by omega
  have hskip : (⟨position, unitEscape n ++ rest⟩ : Cursor).skip 6 =
      ⟨position + (unitEscape n).length, rest⟩ := by
    rw [Cursor.skip, List.drop_left' (length_unitEscape h), length_unitEscape h]
  rw [← hskip]
  show readString start (fuel + 1) ⟨position, '\\' :: 'u' :: (Text.hex 4 n ++ rest)⟩ = _
  rw [readString]
  simp only [if_neg (four_lt_length_hex h hrest), hexFour?_hex h, if_neg hhigh, if_neg hwhole]
  rfl

/-- The escapes of the two halves of a pair are read as one character. -/
theorem readString_pair {high low : Nat} (hhigh : 0xD800 ≤ high ∧ high < 0xDC00)
    (hlow : 0xDC00 ≤ low ∧ low < 0xE000) :
    readString start (fuel + 1) ⟨position, unitEscape high ++ unitEscape low ++ rest⟩ = (do
      let (cs, after) ← readString start fuel
        ⟨position + (unitEscape high ++ unitEscape low).length, rest⟩
      .ok (Char.ofNat (0x10000 + (high - 0xD800) * 0x400 + (low - 0xDC00)) :: cs, after)) := by
  have hunit : high < 0x10000 := by omega
  have hunit' : low < 0x10000 := by omega
  have hlength : (unitEscape high ++ unitEscape low).length = 12 := by
    rw [List.length_append, length_unitEscape hunit, length_unitEscape hunit']
  have hskip : (⟨position, unitEscape high ++ unitEscape low ++ rest⟩ : Cursor).skip 12 =
      ⟨position + (unitEscape high ++ unitEscape low).length, rest⟩ := by
    rw [Cursor.skip, List.drop_left' hlength, hlength]
  -- The low half is looked for behind the digits of the high one.
  have hfound : lowSurrogate? ((Text.hex 4 high ++ (unitEscape low ++ rest)).drop 4) =
      some low := by
    rw [List.drop_left' (length_hex hunit)]
    show (hexFour? (Text.hex 4 low ++ rest)).filter _ = _
    rw [hexFour?_hex hunit', Option.filter_some, if_pos (by simpa using hlow)]
  have hmore : unitEscape low ++ rest ≠ [] := nofun
  rw [← hskip, List.append_assoc]
  show readString start (fuel + 1)
    ⟨position, '\\' :: 'u' :: (Text.hex 4 high ++ (unitEscape low ++ rest))⟩ = _
  rw [readString]
  simp only [if_neg (four_lt_length_hex hunit hmore), hexFour?_hex hunit, if_pos hhigh, hfound]
  rfl

/-- A character that needs no escape stands for itself. -/
theorem readString_plain {c : Char} (hquote : c ≠ '"') (hslash : c ≠ '\\') (hlarge : 32 ≤ c.toNat) :
    readString start (fuel + 1) ⟨position, c :: rest⟩ = (do
      let (cs, after) ← readString start fuel ⟨position + 1, rest⟩
      .ok (c :: cs, after)) := by
  rw [readString]
  split
  · contradiction
  · rename_i heq
    exact absurd (List.cons.inj heq).1 hquote
  · rename_i heq
    exact absurd (List.cons.inj heq).1 hslash
  · rename_i heq
    obtain ⟨rfl, rfl⟩ := List.cons.inj heq
    rw [if_neg (Nat.not_lt.mpr hlarge)]
    rfl

/-- A printed character is read as it was. -/
theorem readString_printChar (c : Char) (hrest : rest ≠ []) :
    readString start (fuel + 1) ⟨position, printChar c ++ rest⟩ = (do
      let (cs, after) ← readString start fuel ⟨position + (printChar c).length, rest⟩
      .ok (c :: cs, after)) := by
  fun_cases printChar c with
  | case1 | case2 | case3 | case4 | case5 =>
    subst c
    rfl
  | case6 n _ _ _ _ _ hnumber =>
    obtain rfl : c = '\x08' := Char.ext (UInt32.toNat_inj.mp hnumber)
    rfl
  | case7 n _ _ _ _ _ _ hnumber =>
    obtain rfl : c = '\x0c' := Char.ext (UInt32.toNat_inj.mp hnumber)
    rfl
  | case8 n hquote hslash _ _ _ _ _ hplain => exact readString_plain hquote hslash hplain.1
  | case9 n _ _ _ _ _ _ _ _ hunit =>
    have hvalid := toNat_valid c
    rw [readString_unitEscape hunit (by omega) hrest, Char.ofNat_toNat]
  | case10 n _ _ _ _ _ _ _ _ hunit =>
    have hvalid : n < 0xD800 ∨ 0xDFFF < n ∧ n < 0x110000 := toNat_valid c
    have hnumber : 0x10000 + (0xD800 + (n - 0x10000) / 0x400 - 0xD800) * 0x400 +
        (0xDC00 + (n - 0x10000) % 0x400 - 0xDC00) = n := by omega
    rw [readString_pair (by omega) (by omega), hnumber, Char.ofNat_toNat]

/-- Printed characters are read up to the quote that closes the string. -/
theorem readString_flatMap (cs : List Char) (hfuel : cs.length < fuel) :
    readString start fuel ⟨position, cs.flatMap printChar ++ '"' :: rest⟩ =
      .ok (cs, ⟨position + (cs.flatMap printChar).length + 1, rest⟩) := by
  induction cs generalizing fuel position with
  | nil =>
    obtain ⟨fuel, rfl⟩ := Nat.exists_eq_add_one_of_ne_zero (Nat.ne_of_gt hfuel)
    rfl
  | cons c cs ih =>
    obtain ⟨fuel, rfl⟩ := Nat.exists_eq_add_one_of_ne_zero (Nat.ne_zero_of_lt hfuel)
    have hrest : cs.flatMap printChar ++ '"' :: rest ≠ [] := by simp
    rw [List.flatMap_cons, List.append_assoc, readString_printChar c hrest,
      ih (Nat.lt_of_succ_lt_succ hfuel), List.length_append, ← Nat.add_assoc]
    rfl

/-- A text has no more characters than are printed for it. -/
theorem length_le_flatMap_printChar (cs : List Char) :
    cs.length ≤ (cs.flatMap printChar).length := by
  induction cs with
  | nil => exact Nat.zero_le _
  | cons c cs ih =>
    have hpos : 0 < (printChar c).length := by
      fun_cases printChar c <;> exact Nat.succ_pos _
    rw [List.flatMap_cons, List.length_append, List.length_cons]
    omega

/-- A printed string is read as it was. -/
theorem readString_printString (s : String) (position : Nat) (rest : List Char) :
    ∃ after, readString position ((printString s).toList ++ rest).length
        ((⟨position, (printString s).toList ++ rest⟩ : Cursor).skip 1) =
      .ok (s.toList, ⟨after, rest⟩) := by
  have htext : (printString s).toList ++ rest =
      '"' :: (s.toList.flatMap printChar ++ '"' :: rest) := by
    rw [printString, String.toList_ofList, List.append_assoc, List.cons_append]
    rfl
  have hfuel := length_le_flatMap_printChar s.toList
  rw [htext]
  refine ⟨_, readString_flatMap s.toList ?_⟩
  rw [List.length_cons, List.length_append]
  omega

/-! ### Blanks -/

/-- The characters that may stand between the parts of a document. -/
def IsGap (c : Char) : Prop := c = ' ' ∨ c = '\t' ∨ c = '\n' ∨ c = '\r'

/-- Blanks are passed up to the next character. -/
theorem blanks_append {gap : List Char} {c : Char} (hgap : ∀ x ∈ gap, IsGap x) (hc : ¬ IsGap c) :
    (⟨position, gap ++ c :: rest⟩ : Cursor).blanks = ⟨position + gap.length, c :: rest⟩ := by
  rw [Cursor.blanks, Cursor.skip]
  have htake : ((gap ++ c :: rest).takeWhile fun x =>
      decide (x = ' ' ∨ x = '\t' ∨ x = '\n' ∨ x = '\r')) = gap := by
    rw [List.takeWhile_append_of_pos fun x hx => by simpa [IsGap] using hgap x hx,
      List.takeWhile_cons_of_neg (by simpa [IsGap] using hc), List.append_nil]
  rw [htake, List.drop_left]

/-- A character that is no blank is where the cursor stays. -/
theorem blanks_cons {c : Char} (hc : ¬ IsGap c) :
    (⟨position, c :: rest⟩ : Cursor).blanks = ⟨position, c :: rest⟩ :=
  blanks_append (List.forall_mem_nil _) hc

/-- A line break and an indent are blanks. -/
theorem isGap_newline (level : Nat) : ∀ x ∈ (newline level).toList, IsGap x := by
  rw [newline, String.toList_ofList]
  intro x hx
  rcases List.mem_cons.mp hx with rfl | hx
  · exact .inr (.inr (.inl rfl))
  · exact .inl (List.eq_of_mem_replicate hx)

/-! ### Plain values -/

mutual

/-- A value in which there are no numbers, and no object has two members of one name. -/
def IsPlain : Json → Prop
  | .null | .bool _ | .string _ => True
  | .integer _ | .float _ => False
  | .array items => ArePlain items
  | .object members => (members.map (·.1)).Nodup ∧ HavePlain members

/-- Companion for items. -/
def ArePlain : List Json → Prop
  | [] => True
  | item :: items => IsPlain item ∧ ArePlain items

/-- Companion for members. -/
def HavePlain : List (String × Json) → Prop
  | [] => True
  | m :: members => IsPlain m.2 ∧ HavePlain members

end

/-- Items are plain one by one. -/
theorem arePlain_iff {items : List Json} : ArePlain items ↔ ∀ item ∈ items, IsPlain item := by
  induction items with
  | nil => simp [ArePlain]
  | cons item items ih => rw [ArePlain, ih, List.forall_mem_cons]

/-- Members are plain one by one. -/
theorem havePlain_iff {members : List (String × Json)} :
    HavePlain members ↔ ∀ m ∈ members, IsPlain m.2 := by
  induction members with
  | nil => simp [HavePlain]
  | cons m members ih => rw [HavePlain, ih, List.forall_mem_cons]

/-- A text is plain. -/
theorem isPlain_string (s : String) : IsPlain (.string s) := by
  rw [IsPlain]
  trivial

/-- An array of plain values is plain. -/
theorem isPlain_map {α : Type} {f : α → Json} {xs : List α} (h : ∀ x ∈ xs, IsPlain (f x)) :
    IsPlain (.array (xs.map f)) := by
  rw [IsPlain, arePlain_iff]
  exact List.forall_mem_map.mpr h

/-! ### Texts of values -/

/-- The text of an item and of those after it. -/
def itemsText (level : Nat) (item : Json) (items : List Json) : List Char :=
  (printValue (level + 1) item).toList ++ (printItems level items).toList

/-- The text of a member and of those after it. -/
def membersText (level : Nat) (m : String × Json) (members : List (String × Json)) : List Char :=
  (printMember (level + 1) m).toList ++ (printMembers level members).toList

/-- An array that is not empty has its items between brackets. -/
theorem toList_printValue_array (level : Nat) (item : Json) (items : List Json) :
    (printValue level (.array (item :: items))).toList =
      '[' :: ((newline (level + 1)).toList ++ (itemsText level item items ++
        ((newline level).toList ++ [']']))) := by
  simp only [printValue, itemsText, String.toList_append, List.append_assoc]
  rfl

/-- An object that is not empty has its members between braces. -/
theorem toList_printValue_object (level : Nat) (m : String × Json)
    (members : List (String × Json)) :
    (printValue level (.object (m :: members))).toList =
      '\x7b' :: ((newline (level + 1)).toList ++ (membersText level m members ++
        ((newline level).toList ++ ['\x7d']))) := by
  simp only [printValue, membersText, String.toList_append, List.append_assoc]
  rfl

theorem itemsText_nil (level : Nat) (item : Json) :
    itemsText level item [] = (printValue (level + 1) item).toList := by
  simp only [itemsText, printItems, String.toList_empty, List.append_nil]

theorem itemsText_cons (level : Nat) (item next : Json) (items : List Json) :
    itemsText level item (next :: items) = (printValue (level + 1) item).toList ++
      ',' :: ((newline (level + 1)).toList ++ itemsText level next items) := by
  simp only [itemsText, printItems, String.toList_append, List.append_assoc]
  rfl

/-- A member is its name, a colon and its value. -/
theorem toList_printMember (level : Nat) (m : String × Json) :
    (printMember level m).toList =
      (printString m.1).toList ++ ':' :: ' ' :: (printValue level m.2).toList := by
  obtain ⟨name, value⟩ := m
  simp only [printMember, String.toList_append, List.append_assoc]
  rfl

theorem membersText_nil (level : Nat) (m : String × Json) :
    membersText level m [] = (printMember (level + 1) m).toList := by
  simp only [membersText, printMembers, String.toList_empty, List.append_nil]

theorem membersText_cons (level : Nat) (m next : String × Json) (members : List (String × Json)) :
    membersText level m (next :: members) = (printMember (level + 1) m).toList ++
      ',' :: ((newline (level + 1)).toList ++ membersText level next members) := by
  simp only [membersText, printMembers, String.toList_append, List.append_assoc]
  rfl

/-- The characters that a value without numbers may begin with. -/
def firstChars : List Char := ['n', 't', 'f', '"', '[', '\x7b']

/-- No value begins with a blank, ends the array that it is in, or is taken for a mark of the byte
order. -/
theorem of_mem_firstChars {c : Char} (h : c ∈ firstChars) :
    ¬ IsGap c ∧ c ≠ ']' ∧ c ≠ '\uFEFF' := by
  simp only [firstChars, List.mem_cons, List.not_mem_nil, or_false] at h
  rcases h with rfl | rfl | rfl | rfl | rfl | rfl <;> simp [IsGap]

/-- What is printed for a string begins with a quote. -/
theorem exists_printString (s : String) : ∃ more, (printString s).toList = '"' :: more := by
  rw [printString, String.toList_ofList]
  exact ⟨_, rfl⟩

/-- What is printed for a value begins with one of these characters. -/
theorem exists_printValue (level : Nat) {v : Json} (h : IsPlain v) :
    ∃ c more, (printValue level v).toList = c :: more ∧ c ∈ firstChars := by
  match v with
  | .null => exact ⟨'n', "ull".toList, by rw [printValue]; rfl, by simp [firstChars]⟩
  | .bool true => exact ⟨'t', "rue".toList, by rw [printValue]; rfl, by simp [firstChars]⟩
  | .bool false => exact ⟨'f', "alse".toList, by rw [printValue]; rfl, by simp [firstChars]⟩
  | .string s =>
    obtain ⟨more, hmore⟩ := exists_printString s
    exact ⟨'"', more, by rw [printValue]; exact hmore, by simp [firstChars]⟩
  | .integer n => exact absurd h (by simp [IsPlain])
  | .float x => exact absurd h (by simp [IsPlain])
  | .array [] => exact ⟨'[', [']'], by rw [printValue]; rfl, by simp [firstChars]⟩
  | .array (item :: items) =>
    exact ⟨'[', _, toList_printValue_array level item items, by simp [firstChars]⟩
  | .object [] => exact ⟨'\x7b', ['\x7d'], by rw [printValue]; rfl, by simp [firstChars]⟩
  | .object (m :: members) =>
    exact ⟨'\x7b', _, toList_printValue_object level m members, by simp [firstChars]⟩

/-- A member of a new name comes to stand at the end. -/
theorem setMember_of_new {members : List (String × Json)} {name : String} (value : Json)
    (h : name ∉ members.map (·.1)) : setMember members name value = members ++ [(name, value)] := by
  have hnew : members.any (·.1 = name) = false := by
    rw [List.any_eq_false]
    intro m hm heq
    exact h (List.mem_map.mpr ⟨m, hm, of_decide_eq_true heq⟩)
  rw [setMember, hnew, if_neg Bool.false_ne_true]

/-- What ends an array or an object comes behind a line break. -/
theorem blanks_newline (level : Nat) {c : Char} (hc : ¬ IsGap c) :
    (⟨position, (newline level).toList ++ c :: rest⟩ : Cursor).blanks =
      ⟨position + (newline level).toList.length, c :: rest⟩ :=
  blanks_append (isGap_newline level) hc

/-! ### Reading -/

/-- With this fuel, plain values are read as they are printed. -/
def ReadsValues (fuel : Nat) : Prop :=
  ∀ (v : Json) (level position : Nat) (rest : List Char), IsPlain v →
    (printValue level v).toList.length ≤ fuel →
    ∃ after, readValue fuel ⟨position, (printValue level v).toList ++ rest⟩ =
      .ok (v, ⟨after, rest⟩)

/-- With this fuel, plain items are read as they are printed. -/
def ReadsItems (fuel : Nat) : Prop :=
  ∀ (items : List Json) (item : Json) (level position : Nat) (rest : List Char) (done : List Json),
    ArePlain (item :: items) → (itemsText level item items).length < fuel →
    ∃ after, readItems fuel
        ⟨position, itemsText level item items ++ ((newline level).toList ++ ']' :: rest)⟩ done =
      .ok (.array (done.reverse ++ item :: items), ⟨after, rest⟩)

/-- With this fuel, plain members of distinct names are read as they are printed. -/
def ReadsMembers (fuel : Nat) : Prop :=
  ∀ (members : List (String × Json)) (m : String × Json) (level position : Nat) (rest : List Char)
    (done : List (String × Json)),
    HavePlain (m :: members) → ((done ++ m :: members).map (·.1)).Nodup →
    (membersText level m members).length < fuel →
    ∃ after, readMembers fuel
        ⟨position, membersText level m members ++ ((newline level).toList ++ '\x7d' :: rest)⟩ done =
      .ok (.object (done ++ m :: members), ⟨after, rest⟩)

section Steps

variable {c after afterName : Cursor} {value : Json} {name : List Char}

/-- An item in front of a bracket is the last one. -/
theorem readItems_last {done : List Json} (h : readValue fuel c = .ok (value, after))
    (hnext : after.blanks = ⟨position, ']' :: rest⟩) :
    readItems (fuel + 1) c done = .ok (.array (value :: done).reverse, ⟨position + 1, rest⟩) := by
  rw [readItems, h]
  show (if after.blanks.next? = some ']' then _ else _) = _
  rw [hnext]
  rfl

/-- An item in front of a comma has another one behind it. -/
theorem readItems_comma {done : List Json} (h : readValue fuel c = .ok (value, after))
    (hnext : after.blanks = ⟨position, ',' :: rest⟩) :
    readItems (fuel + 1) c done =
      readItems fuel (Cursor.blanks ⟨position + 1, rest⟩) (value :: done) := by
  rw [readItems, h]
  show (if after.blanks.next? = some ']' then _ else _) = _
  rw [hnext]
  rfl

/-- A name, a colon and a value at the cursor. -/
structure MemberAt (fuel : Nat) (c : Cursor) (name : List Char) (value : Json) (after : Cursor) :
    Prop where
  quote : c.next? = some '"'
  name : ∃ afterName, readString c.position c.rest.length (c.skip 1) = .ok (name, afterName) ∧
    afterName.blanks.next? = some ':' ∧
    readValue fuel (afterName.blanks.skip 1).blanks = .ok (value, after)

/-- A member in front of a brace is the last one. -/
theorem readMembers_last {done : List (String × Json)} (h : MemberAt fuel c name value after)
    (hnext : after.blanks = ⟨position, '\x7d' :: rest⟩) :
    readMembers (fuel + 1) c done =
      .ok (.object (setMember done (String.ofList name) value), ⟨position + 1, rest⟩) := by
  obtain ⟨hquote, afterName, hname, hcolon, hvalue⟩ := h
  rw [readMembers, if_pos hquote, hname]
  show (if afterName.blanks.next? = some ':' then _ else _) = _
  rw [if_pos hcolon, hvalue]
  show (if after.blanks.next? = some '\x7d' then _ else _) = _
  rw [hnext]
  rfl

/-- A member in front of a comma has another one behind it. -/
theorem readMembers_comma {done : List (String × Json)} (h : MemberAt fuel c name value after)
    (hnext : after.blanks = ⟨position, ',' :: rest⟩) :
    readMembers (fuel + 1) c done = readMembers fuel (Cursor.blanks ⟨position + 1, rest⟩)
      (setMember done (String.ofList name) value) := by
  obtain ⟨hquote, afterName, hname, hcolon, hvalue⟩ := h
  rw [readMembers, if_pos hquote, hname]
  show (if afterName.blanks.next? = some ':' then _ else _) = _
  rw [if_pos hcolon, hvalue]
  show (if after.blanks.next? = some '\x7d' then _ else _) = _
  rw [hnext]
  rfl

/-- A quote begins a string. -/
theorem readValue_quote {cs : List Char}
    (h : readString position ('"' :: rest).length ⟨position + 1, rest⟩ = .ok (cs, after)) :
    readValue (fuel + 1) ⟨position, '"' :: rest⟩ = .ok (.string (String.ofList cs), after) := by
  show (do
    let (cs, after) ← readString position ('"' :: rest).length ⟨position + 1, rest⟩
    Except.ok (Json.string (String.ofList cs), after)) = _
  rw [h]
  rfl

/-- A bracket begins an array. If something else than the other bracket follows, this is an item. -/
theorem readValue_bracket (h : Cursor.blanks ⟨position + 1, rest⟩ = after)
    (hnext : after.next? ≠ some ']') :
    readValue (fuel + 1) ⟨position, '[' :: rest⟩ = readItems fuel after [] := by
  show (if (Cursor.blanks ⟨position + 1, rest⟩).next? = some ']' then _ else _) = _
  rw [h, if_neg hnext, ← h]
  rfl

/-- A brace begins an object. If something else than the other brace follows, this is a member. -/
theorem readValue_brace (h : Cursor.blanks ⟨position + 1, rest⟩ = after)
    (hnext : after.next? ≠ some '\x7d') :
    readValue (fuel + 1) ⟨position, '\x7b' :: rest⟩ = readMembers fuel after [] := by
  show (if (Cursor.blanks ⟨position + 1, rest⟩).next? = some '\x7d' then _ else _) = _
  rw [h, if_neg hnext, ← h]
  rfl

end Steps

/-- Items behind a line break are found there. -/
theorem blanks_items (level : Nat) {item : Json} (h : IsPlain item) (items : List Json)
    (position : Nat) (rest : List Char) :
    ∃ c more after, itemsText level item items ++ rest = c :: more ∧ c ≠ ']' ∧
      (⟨position, (newline (level + 1)).toList ++ (itemsText level item items ++ rest)⟩ :
          Cursor).blanks = ⟨after, itemsText level item items ++ rest⟩ := by
  obtain ⟨c, more, htext, hc⟩ := exists_printValue (level + 1) h
  have hitems : itemsText level item items ++ rest =
      c :: (more ++ (printItems level items).toList ++ rest) := by
    rw [itemsText, htext]
    rfl
  rw [hitems]
  exact ⟨c, _, _, rfl, (of_mem_firstChars hc).2.1, blanks_newline _ (of_mem_firstChars hc).1⟩

/-- Members behind a line break are found there. -/
theorem blanks_members (level : Nat) (m : String × Json) (members : List (String × Json))
    (position : Nat) (rest : List Char) :
    ∃ more after, membersText level m members ++ rest = '"' :: more ∧
      (⟨position, (newline (level + 1)).toList ++ (membersText level m members ++ rest)⟩ :
          Cursor).blanks =
        ⟨after, membersText level m members ++ rest⟩ := by
  obtain ⟨more, htext⟩ := exists_printString m.1
  have hmembers : ∃ more, membersText level m members ++ rest = '"' :: more := by
    rw [membersText, toList_printMember, htext]
    exact ⟨_, rfl⟩
  obtain ⟨more, hmore⟩ := hmembers
  rw [hmore]
  exact ⟨_, _, rfl, blanks_newline _ (by simp [IsGap])⟩

/-- One more item can be read. -/
theorem readsItems_succ (hvalues : ReadsValues fuel) (hitems : ReadsItems fuel) :
    ReadsItems (fuel + 1) := by
  intro items item level position rest done h hfuel
  rw [ArePlain] at h
  cases items with
  | nil =>
    rw [itemsText_nil] at hfuel ⊢
    obtain ⟨after, hvalue⟩ := hvalues item (level + 1) position
      ((newline level).toList ++ ']' :: rest) h.1 (Nat.le_of_lt_succ hfuel)
    rw [← List.reverse_cons]
    exact ⟨_, readItems_last hvalue (blanks_newline level (by simp [IsGap]))⟩
  | cons next items =>
    rw [itemsText_cons, List.length_append, List.length_cons, List.length_append] at hfuel
    have hnext := h.2
    rw [ArePlain] at hnext
    -- The comma takes the fuel that this step takes.
    obtain ⟨after, hvalue⟩ := hvalues item (level + 1) position
      (',' :: ((newline (level + 1)).toList ++ (itemsText level next items ++
        ((newline level).toList ++ ']' :: rest)))) h.1 (by omega)
    obtain ⟨-, -, start, -, -, hblanks⟩ := blanks_items level hnext.1 items (after + 1)
      ((newline level).toList ++ ']' :: rest)
    obtain ⟨stop, hrest⟩ := hitems items next level start rest (item :: done) h.2 (by omega)
    rw [itemsText_cons, List.append_assoc, List.cons_append, List.append_assoc,
      readItems_comma hvalue (blanks_cons (by simp [IsGap])), hblanks, hrest, List.reverse_cons,
      List.append_assoc]
    exact ⟨stop, rfl⟩

/-- A printed member is at the cursor. -/
theorem memberAt_printMember (hvalues : ReadsValues fuel) (level position : Nat)
    {m : String × Json} (h : IsPlain m.2) (rest : List Char)
    (hfuel : (printMember level m).toList.length ≤ fuel) :
    ∃ after, MemberAt fuel ⟨position, (printMember level m).toList ++ rest⟩ m.1.toList m.2
      ⟨after, rest⟩ := by
  rw [toList_printMember] at hfuel ⊢
  rw [List.length_append, List.length_cons, List.length_cons] at hfuel
  obtain ⟨afterName, hname⟩ := readString_printString m.1 position
    (':' :: ' ' :: ((printValue level m.2).toList ++ rest))
  obtain ⟨after, hvalue⟩ := hvalues m.2 level (afterName + 2) rest h (by omega)
  obtain ⟨quoted, hquoted⟩ := exists_printString m.1
  have hcolon : (⟨afterName, ':' :: ' ' :: ((printValue level m.2).toList ++ rest)⟩ :
      Cursor).blanks =
      ⟨afterName, ':' :: ' ' :: ((printValue level m.2).toList ++ rest)⟩ :=
    blanks_cons (by simp [IsGap])
  -- One blank stands between the colon and the value.
  have hblank : (⟨afterName + 1, [' '] ++ ((printValue level m.2).toList ++ rest)⟩ :
      Cursor).blanks =
      ⟨afterName + 2, (printValue level m.2).toList ++ rest⟩ := by
    obtain ⟨c, more, htext, hc⟩ := exists_printValue level h
    rw [htext, List.cons_append]
    exact blanks_append (fun x hx => .inl (List.mem_singleton.mp hx)) (of_mem_firstChars hc).1
  rw [List.append_assoc, List.cons_append, List.cons_append]
  refine ⟨after, ⟨?_, _, hname, ?_, ?_⟩⟩
  · rw [hquoted]
    rfl
  · rw [hcolon]
    rfl
  · rw [hcolon]
    exact (congrArg (readValue fuel) hblank).trans hvalue

/-- One more member can be read. -/
theorem readsMembers_succ (hvalues : ReadsValues fuel) (hmembers : ReadsMembers fuel) :
    ReadsMembers (fuel + 1) := by
  intro members m level position rest done h hnames hfuel
  rw [HavePlain] at h
  -- The name is none of those before.
  have hnew : m.1 ∉ done.map (·.1) := by
    rw [List.map_append, List.map_cons] at hnames
    exact fun hmem => (List.nodup_append.mp hnames).2.2 _ hmem _ List.mem_cons_self rfl
  have hset : setMember done (String.ofList m.1.toList) m.2 = done ++ [m] := by
    rw [String.ofList_toList, setMember_of_new m.2 hnew]
  cases members with
  | nil =>
    rw [membersText_nil] at hfuel ⊢
    obtain ⟨after, hmember⟩ := memberAt_printMember hvalues (level + 1) position h.1
      ((newline level).toList ++ '\x7d' :: rest) (Nat.le_of_lt_succ hfuel)
    rw [← hset]
    exact ⟨_, readMembers_last hmember (blanks_newline level (by simp [IsGap]))⟩
  | cons next members =>
    rw [membersText_cons, List.length_append, List.length_cons, List.length_append] at hfuel
    obtain ⟨after, hmember⟩ := memberAt_printMember hvalues (level + 1) position h.1
      (',' :: ((newline (level + 1)).toList ++ (membersText level next members ++
        ((newline level).toList ++ '\x7d' :: rest)))) (by omega)
    obtain ⟨-, start, -, hblanks⟩ := blanks_members level next members (after + 1)
      ((newline level).toList ++ '\x7d' :: rest)
    rw [List.append_cons] at hnames
    obtain ⟨stop, hrest⟩ := hmembers members next level start rest (done ++ [m]) h.2 hnames
      (by omega)
    rw [membersText_cons, List.append_assoc, List.cons_append, List.append_assoc,
      readMembers_comma hmember (blanks_cons (by simp [IsGap])), hblanks, hset, hrest,
      ← List.append_cons]
    exact ⟨stop, rfl⟩

/-- An array around items can be read. -/
theorem readValue_array (hitems : ReadsItems fuel) {items : List Json} {item : Json}
    (h : ArePlain (item :: items)) (level position : Nat) (rest : List Char)
    (hfuel : (printValue level (.array (item :: items))).toList.length ≤ fuel + 1) :
    ∃ after, readValue (fuel + 1)
        ⟨position, (printValue level (.array (item :: items))).toList ++ rest⟩ =
      .ok (.array (item :: items), ⟨after, rest⟩) := by
  rw [toList_printValue_array] at hfuel ⊢
  simp only [List.length_cons, List.length_append] at hfuel
  have hitem := h
  rw [ArePlain] at hitem
  obtain ⟨c, more, start, htext, hc, hblanks⟩ := blanks_items level hitem.1 items (position + 1)
    ((newline level).toList ++ ']' :: rest)
  have hnext : (⟨start, itemsText level item items ++ ((newline level).toList ++ ']' :: rest)⟩ :
      Cursor).next? ≠ some ']' := by
    rw [htext]
    exact fun heq => hc (Option.some.inj heq)
  obtain ⟨after, hread⟩ := hitems items item level start rest [] h (by omega)
  refine ⟨after, ?_⟩
  simp only [List.cons_append, List.append_assoc, List.nil_append]
  exact (readValue_bracket hblanks hnext).trans hread

/-- An object around members can be read. -/
theorem readValue_object (hmembers : ReadsMembers fuel) {members : List (String × Json)}
    {m : String × Json} (h : HavePlain (m :: members))
    (hnames : ((m :: members).map (·.1)).Nodup) (level position : Nat) (rest : List Char)
    (hfuel : (printValue level (.object (m :: members))).toList.length ≤ fuel + 1) :
    ∃ after, readValue (fuel + 1)
        ⟨position, (printValue level (.object (m :: members))).toList ++ rest⟩ =
      .ok (.object (m :: members), ⟨after, rest⟩) := by
  rw [toList_printValue_object] at hfuel ⊢
  simp only [List.length_cons, List.length_append] at hfuel
  obtain ⟨more, start, htext, hblanks⟩ := blanks_members level m members (position + 1)
    ((newline level).toList ++ '\x7d' :: rest)
  have hnext : (⟨start, membersText level m members ++
      ((newline level).toList ++ '\x7d' :: rest)⟩ : Cursor).next? ≠ some '\x7d' := by
    rw [htext]
    simp [Cursor.next?]
  obtain ⟨after, hread⟩ := hmembers members m level start rest [] h hnames (by omega)
  refine ⟨after, ?_⟩
  simp only [List.cons_append, List.append_assoc, List.nil_append]
  exact (readValue_brace hblanks hnext).trans hread

/-- Values inside one more pair of brackets can be read. -/
theorem readsValues_succ (hitems : ReadsItems fuel) (hmembers : ReadsMembers fuel) :
    ReadsValues (fuel + 1) := by
  intro v level position rest h hfuel
  cases v with
  | null => exact ⟨position + 4, by simp only [printValue]; rfl⟩
  | bool b => cases b <;> exact ⟨_, by simp only [printValue]; rfl⟩
  | string s =>
    obtain ⟨after, hstring⟩ := readString_printString s position rest
    obtain ⟨more, hquote⟩ := exists_printString s
    rw [printValue, hquote]
    rw [hquote] at hstring
    refine ⟨after, (readValue_quote hstring).trans ?_⟩
    rw [String.ofList_toList]
  | integer n => exact absurd h (by simp [IsPlain])
  | float x => exact absurd h (by simp [IsPlain])
  | array items =>
    rw [IsPlain] at h
    cases items with
    | nil => exact ⟨position + 2, by simp only [printValue]; rfl⟩
    | cons item items => exact readValue_array hitems h level position rest hfuel
  | object members =>
    rw [IsPlain] at h
    cases members with
    | nil => exact ⟨position + 2, by simp only [printValue]; rfl⟩
    | cons m members => exact readValue_object hmembers h.2 h.1 level position rest hfuel

/-- Fuel for its length is enough for every text that was printed. -/
theorem reads (fuel : Nat) : ReadsValues fuel ∧ ReadsItems fuel ∧ ReadsMembers fuel := by
  induction fuel with
  | zero =>
    refine ⟨fun v level position rest h hfuel => ?_, ?_, ?_⟩
    · obtain ⟨c, more, htext, -⟩ := exists_printValue level h
      rw [htext] at hfuel
      exact absurd hfuel (Nat.not_succ_le_zero _)
    · exact fun _ _ _ _ _ _ _ hfuel => absurd hfuel (Nat.not_lt_zero _)
    · exact fun _ _ _ _ _ _ _ _ hfuel => absurd hfuel (Nat.not_lt_zero _)
  | succ fuel ih =>
    obtain ⟨hvalues, hitems, hmembers⟩ := ih
    exact ⟨readsValues_succ hitems hmembers, readsItems_succ hvalues hitems,
      readsMembers_succ hvalues hmembers⟩

/-- A plain value that was printed is read as it was. -/
theorem read_print {v : Json} (h : IsPlain v) : read (print v).toList = .ok v := by
  rw [print]
  obtain ⟨c, more, htext, hc⟩ := exists_printValue 0 h
  obtain ⟨hgap, -, hmark⟩ := of_mem_firstChars hc
  have hhead : (printValue 0 v).toList.head? ≠ some '\uFEFF' := by
    rw [htext]
    exact fun heq => hmark (Option.some.inj heq)
  have hstart : (⟨0, (printValue 0 v).toList⟩ : Cursor).blanks = ⟨0, (printValue 0 v).toList⟩ := by
    rw [htext]
    exact blanks_cons hgap
  have hfuel : (printValue 0 v).toList.length ≤ 2 * (printValue 0 v).toList.length + 1 := by omega
  obtain ⟨after, hvalue⟩ := (reads _).1 v 0 0 [] h hfuel
  rw [List.append_nil] at hvalue
  rw [read, if_neg hhead, hstart, hvalue]
  rfl

end Apidoc.Json
