import Apidoc.Text.Utf8

/-!
# `Apidoc.Proofs.Text.Utf8`: ASCII characters in a byte sequence

Whether or not a byte sequence is UTF-8, its ASCII bytes are read as they are: such a byte
cuts the sequence into two that are read apart (`decode_append_ascii`), and an ASCII
character stands in the text only if its byte stands in the sequence (`exists_byte_of_mem_decode`).
The character NUL is left out, which also stands for numbers that are no code points.
-/

set_option autoImplicit false

namespace Apidoc.Text

namespace Utf8

/-! ### The first character -/

/-- A character that has begun will be no ASCII character, because of the bits that it has, or
because of those that its next byte has to add. -/
def Pending.IsHigh (p : Pending) : Prop :=
  2 ≤ p.bits ∨ (p.missing ≠ 0 ∧ 2 ≤ p.bits * 64 + (p.low - 0x80))

/-- The item is not the given ASCII character. -/
def Avoids (code : Nat) (item : Option Char) : Prop := ∀ c, item = some c → c.toNat ≠ code

/-- A number that is a code point is the code of its character, and any other one stands for
the character NUL. -/
theorem toNat_ofNat_eq (n : Nat) : (Char.ofNat n).toNat = n ∨ (Char.ofNat n).toNat = 0 := by
  by_cases hvalid : n.isValidChar
  · left
    rw [Char.ofNat, dif_pos hvalid]
    rfl
  · right
    rw [Char.ofNat, dif_neg hvalid]
    rfl

/-- A first byte of several announces a character above ASCII. -/
theorem isHigh_of_lead {b : UInt8} {p : Pending} (h : lead b = .first p) : p.IsHigh := by
  unfold lead at h
  simp only at h
  split at h
  · cases h
  split at h
  · cases h
  split at h
  · cases h
    exact Or.inl (by dsimp only; omega)
  split at h
  · cases h
    refine Or.inr ⟨Nat.succ_ne_zero _, ?_⟩
    dsimp only
    split <;> omega
  split at h
  · cases h
    refine Or.inr ⟨Nat.succ_ne_zero _, ?_⟩
    dsimp only
    split <;> omega
  · cases h

/-- One more byte completes a character above ASCII, or leads closer to one. -/
theorem Pending.IsHigh.next {p : Pending} (hp : p.IsHigh) {b : UInt8} {next : Lead}
    (h : p.next? b = some next) :
    (∃ n, 0x80 ≤ n ∧ next = .whole (Char.ofNat n)) ∨ ∃ q : Pending, q.IsHigh ∧ next = .first q := by
  unfold Pending.next? at h
  simp only [Bool.and_eq_true, decide_eq_true_eq] at h
  split at h
  · rename_i hrange
    -- The byte adds at least what the range asks for.
    have hbits : p.bits * 64 + (p.low - 0x80) ≤ p.bits * 64 + (b.toNat - 0x80) := by omega
    split at h
    · rename_i hmissing
      cases h
      refine Or.inl ⟨_, ?_, rfl⟩
      rcases hp with hp | ⟨hmore, -⟩
      · omega
      · exact absurd hmissing hmore
    · cases h
      refine Or.inr ⟨_, Or.inl ?_, rfl⟩
      dsimp only
      rcases hp with hp | ⟨-, hp⟩
      · omega
      · omega
  · cases h

/-- The first item after a character has begun is not an ASCII character other than NUL. -/
theorem head_items_pending {code : Nat} (hcode : 0 < code ∧ code < 0x80) (bytes : Bytes)
    {p : Pending} (hp : p.IsHigh) :
    ∃ item rest, items (some p) bytes = item :: rest ∧ Avoids code item := by
  induction bytes generalizing p with
  | nil => exact ⟨none, [], rfl, nofun⟩
  | cons b bytes ih =>
    cases hnext : p.next? b with
    | none =>
      rw [items, hnext]
      exact ⟨none, _, rfl, nofun⟩
    | some next =>
      rcases hp.next hnext with ⟨n, hn, rfl⟩ | ⟨q, hq, rfl⟩
      · rw [items, hnext]
        refine ⟨some (Char.ofNat n), _, rfl, fun c hc => ?_⟩
        cases hc
        have hcases := toNat_ofNat_eq n
        omega
      · rw [items, hnext]
        exact ih hq

/-- A byte sequence begins with an ASCII character only if that is its first byte. -/
theorem head_items {code : Nat} (hcode : 0 < code ∧ code < 0x80) {b : UInt8}
    (hb : b.toNat ≠ code) (bytes : Bytes) :
    ∃ item rest, items none (b :: bytes) = item :: rest ∧ Avoids code item := by
  rw [items]
  cases hlead : lead b with
  | whole c =>
    refine ⟨some c, _, rfl, fun d hd => ?_⟩
    cases hd
    -- A byte that is a character is below 128, so it is the code of this character.
    unfold lead at hlead
    simp only at hlead
    split at hlead
    · cases hlead
      have hcases := toNat_ofNat_eq b.toNat
      omega
    · repeat' split at hlead
      all_goals cases hlead
  | first p => exact head_items_pending hcode bytes (isHigh_of_lead hlead)
  | invalid => exact ⟨none, _, rfl, nofun⟩

/-! ### ASCII bytes -/

theorem lead_ascii {b : UInt8} (h : b.toNat < 0x80) : lead b = .whole (Char.ofNat b.toNat) :=
  if_pos h

/-- A character that has begun is not completed by an ASCII byte. -/
def Pending.WaitsHigh (p : Pending) : Prop := 0x80 ≤ p.low

theorem Pending.WaitsHigh.next?_ascii {p : Pending} (h : p.WaitsHigh) {b : UInt8}
    (hb : b.toNat < 0x80) : p.next? b = none := by
  have hlow : ¬ p.low ≤ b.toNat := by
    rw [WaitsHigh] at h
    omega
  simp [next?, hlow]

theorem waitsHigh_of_lead {b : UInt8} {p : Pending} (h : lead b = .first p) : p.WaitsHigh := by
  unfold lead at h
  simp only at h
  repeat' split at h
  all_goals cases h
  all_goals simp [Pending.WaitsHigh]

theorem waitsHigh_of_next? {b : UInt8} {p q : Pending} (h : p.next? b = some (.first q)) :
    q.WaitsHigh := by
  unfold Pending.next? at h
  simp only at h
  repeat' split at h
  all_goals cases h
  exact Nat.le_refl _

/-- An ASCII byte is read as it is, and cuts what is before it from what is behind it. The induction
is on the bytes before it, with any character begun. -/
theorem items_append_ascii {state : Option Pending} (hstate : ∀ p ∈ state, p.WaitsHigh) {b : UInt8}
    (hb : b.toNat < 0x80) (front back : Bytes) :
    items state (front ++ b :: back) =
      items state front ++ some (Char.ofNat b.toNat) :: items none back := by
  have hnone : ∀ p ∈ (none : Option Pending), p.WaitsHigh := nofun
  induction front generalizing state with
  | nil =>
    cases state with
    | none =>
      have hitems : items none (b :: back) = some (Char.ofNat b.toNat) :: items none back := by
        rw [items, lead_ascii hb]
      exact hitems
    | some p =>
      have hitems : items (some p) (b :: back) =
          none :: some (Char.ofNat b.toNat) :: items none back := by
        rw [items, (hstate p rfl).next?_ascii hb, lead_ascii hb]
      exact hitems
  | cons first rest ih =>
    rw [List.cons_append]
    cases state with
    | none =>
      rw [items, items]
      cases hlead : lead first with
      | whole c => exact congrArg (some c :: ·) (ih hnone)
      | first p => exact ih fun q hq => Option.mem_some.mp hq ▸ waitsHigh_of_lead hlead
      | invalid => exact congrArg (none :: ·) (ih hnone)
    | some p =>
      rw [items, items]
      cases hnext : p.next? first with
      | some next =>
        cases next with
        | whole c => exact congrArg (some c :: ·) (ih hnone)
        | first q => exact ih fun r hr => Option.mem_some.mp hr ▸ waitsHigh_of_next? hnext
        | invalid => exact congrArg (none :: ·) (ih hnone)
      | none =>
        -- The character that was begun is given up, and the byte begins another one.
        rw [List.cons_append]
        refine congrArg (none :: ·) ?_
        cases hlead : lead first with
        | whole c => exact congrArg (some c :: ·) (ih hnone)
        | first q => exact ih fun r hr => Option.mem_some.mp hr ▸ waitsHigh_of_lead hlead
        | invalid => exact congrArg (none :: ·) (ih hnone)

/-- A byte that is read as a character is the code of that character. -/
theorem toNat_of_lead {b : UInt8} {c : Char} (h : lead b = .whole c) : b.toNat = c.toNat := by
  unfold lead at h
  simp only at h
  split at h
  · rename_i hb
    cases h
    have hvalid : b.toNat.isValidChar := .inl (by omega)
    rw [Char.ofNat, dif_pos hvalid]
    rfl
  · repeat' split at h
    all_goals cases h

/-- An ASCII character is read only where its byte stands. -/
theorem exists_byte_of_mem_items {state : Option Pending} (hstate : ∀ p ∈ state, p.IsHigh)
    {c : Char} (hc : 0 < c.toNat ∧ c.toNat < 0x80) {bytes : Bytes}
    (h : some c ∈ items state bytes) :
    ∃ b ∈ bytes, b.toNat = c.toNat := by
  have hnone : ∀ p ∈ (none : Option Pending), p.IsHigh := nofun
  have hlater : ∀ {b : UInt8} {bytes : Bytes}, (∃ x ∈ bytes, x.toNat = c.toNat) →
      ∃ x ∈ b :: bytes, x.toNat = c.toNat := fun ⟨x, hx, heq⟩ => ⟨x, List.mem_cons_of_mem _ hx, heq⟩
  -- What a first byte announces, without a character that was begun before.
  have hfirst : ∀ {b : UInt8} {rest : Bytes}, (∀ {state : Option Pending},
      (∀ p ∈ state, p.IsHigh) → some c ∈ items state rest → ∃ x ∈ rest, x.toNat = c.toNat) →
      some c ∈ items none (b :: rest) → ∃ x ∈ b :: rest, x.toNat = c.toNat := by
    intro b rest ih h
    rw [items] at h
    cases hlead : lead b with
    | whole d =>
      rw [hlead] at h
      rcases List.mem_cons.mp h with hsame | h
      · cases hsame
        exact ⟨b, List.mem_cons_self, toNat_of_lead hlead⟩
      · exact hlater (ih hnone h)
    | first p =>
      rw [hlead] at h
      exact hlater (ih (fun q hq => Option.mem_some.mp hq ▸ isHigh_of_lead hlead) h)
    | invalid =>
      rw [hlead] at h
      exact hlater (ih hnone ((List.mem_cons.mp h).resolve_left nofun))
  induction bytes generalizing state with
  | nil =>
    cases state with
    | none => cases h
    | some p => cases List.mem_singleton.mp h
  | cons b rest ih =>
    cases state with
    | none => exact hfirst ih h
    | some p =>
      rw [items] at h
      cases hnext : p.next? b with
      | none =>
        rw [hnext] at h
        refine hfirst ih ?_
        rw [items]
        exact (List.mem_cons.mp h).resolve_left nofun
      | some next =>
        rw [hnext] at h
        rcases (hstate p rfl).next hnext with ⟨n, hn, rfl⟩ | ⟨q, hq, rfl⟩
        · refine hlater (ih hnone ((List.mem_cons.mp h).resolve_left ?_))
          rintro hsame
          cases hsame
          have hcases := toNat_ofNat_eq n
          omega
        · exact hlater (ih (fun r hr => Option.mem_some.mp hr ▸ hq) h)

end Utf8

/-- An ASCII byte cuts a byte sequence into two that are read apart. -/
theorem decode_append_ascii {b : UInt8} (hb : b.toNat < 0x80) (front back : Bytes) :
    decode (front ++ b :: back) = decode front ++ Char.ofNat b.toNat :: decode back := by
  have hnone : ∀ p ∈ (none : Option Utf8.Pending), p.WaitsHigh := nofun
  rw [decode, Utf8.items_append_ascii hnone hb, List.map_append, List.map_cons]
  rfl

/-- Where two byte sequences meet, one of the two bytes is an ASCII byte. -/
def AsciiBorder (front back : Bytes) : Prop :=
  (∃ b ∈ front.getLast?, b.toNat < 0x80) ∨ ∃ b ∈ back.head?, b.toNat < 0x80

theorem AsciiBorder.prepend {front back : Bytes} (h : AsciiBorder front back) (more : Bytes) :
    AsciiBorder (more ++ front) back := by
  rcases h with ⟨b, hlast, hb⟩ | hhead
  · refine .inl ⟨b, ?_, hb⟩
    rw [List.getLast?_append, hlast]
    rfl
  · exact .inr hhead

/-- Byte sequences with such a border between them are read apart. -/
theorem decode_append {front back : Bytes} (h : AsciiBorder front back) :
    decode (front ++ back) = decode front ++ decode back := by
  rcases h with ⟨b, hlast, hb⟩ | ⟨b, hhead, hb⟩
  · obtain ⟨init, rfl⟩ := List.getLast?_eq_some_iff.mp hlast
    rw [List.append_assoc, List.singleton_append, decode_append_ascii hb, decode_append_ascii hb,
      List.append_assoc]
    rfl
  · obtain ⟨tail, rfl⟩ := List.head?_eq_some_iff.mp hhead
    have hback : decode (b :: tail) = Char.ofNat b.toNat :: decode tail :=
      decode_append_ascii hb [] tail
    rw [decode_append_ascii hb, hback]

/-- An ASCII character stands in a text only if its byte stands in the byte sequence. -/
theorem exists_byte_of_mem_decode {c : Char} (hc : 0 < c.toNat ∧ c.toNat < 0x80) {bytes : Bytes}
    (h : c ∈ decode bytes) : ∃ b ∈ bytes, b.toNat = c.toNat := by
  obtain ⟨item, hitem, heq⟩ := List.mem_map.mp h
  cases item with
  | none =>
    rw [← heq] at hc
    exact absurd hc.2 (by decide)
  | some d =>
    rw [← show d = c from heq] at hc ⊢
    have hnone : ∀ p ∈ (none : Option Utf8.Pending), p.IsHigh := nofun
    exact Utf8.exists_byte_of_mem_items hnone hc hitem

/-- An ASCII character stands in a text as often as its byte in the byte sequence. -/
theorem count_decode_ascii {b : UInt8} (hb : 0 < b.toNat ∧ b.toNat < 0x80) (bytes : Bytes) :
    (decode bytes).count (Char.ofNat b.toNat) = bytes.count b := by
  have hchar : (Char.ofNat b.toNat).toNat = b.toNat :=
    (Utf8.toNat_of_lead (Utf8.lead_ascii hb.2)).symm
  -- The byte cuts the sequence, so the induction is on its length.
  induction hn : bytes.length using Nat.strongRecOn generalizing bytes with
  | _ n ih =>
    by_cases hmem : b ∈ bytes
    · obtain ⟨front, back, rfl, -⟩ := List.eq_append_cons_of_mem hmem
      rw [List.length_append, List.length_cons] at hn
      rw [decode_append_ascii hb.2, List.count_append, List.count_append, List.count_cons_self,
        List.count_cons_self, ih _ (by omega) front rfl, ih _ (by omega) back rfl]
    · rw [List.count_eq_zero.mpr hmem, List.count_eq_zero]
      intro hdecoded
      obtain ⟨x, hx, heq⟩ := exists_byte_of_mem_decode (by rw [hchar]; exact hb) hdecoded
      rw [hchar] at heq
      exact hmem (UInt8.toNat_inj.mp heq ▸ hx)

/-- Only the empty byte sequence has the empty text. -/
theorem decode_ne_nil {bytes : Bytes} (h : bytes ≠ []) : decode bytes ≠ [] := by
  obtain ⟨b, rest, rfl⟩ := List.exists_cons_of_ne_nil h
  have hcode : ∃ code, (0 < code ∧ code < 0x80) ∧ b.toNat ≠ code := by
    by_cases hb : b.toNat = 1
    · exact ⟨2, by decide, by omega⟩
    · exact ⟨1, by decide, hb⟩
  obtain ⟨code, hcode, hb⟩ := hcode
  obtain ⟨item, items, hitems, -⟩ := Utf8.head_items hcode hb rest
  rw [decode, hitems]
  exact List.cons_ne_nil _ _

/-- A text begins with an ASCII character only if its first byte is that character. -/
theorem head?_decode {b : UInt8} (hb : 0 < b.toNat ∧ b.toNat < 0x80) {bytes : Bytes}
    (h : bytes.head? ≠ some b) : (decode bytes).head? ≠ some (Char.ofNat b.toNat) := by
  cases bytes with
  | nil => nofun
  | cons first rest =>
    have hfirst : first.toNat ≠ b.toNat := fun heq => h (congrArg some (UInt8.toNat_inj.mp heq))
    have hchar : (Char.ofNat b.toNat).toNat = b.toNat :=
      (Utf8.toNat_of_lead (Utf8.lead_ascii hb.2)).symm
    obtain ⟨item, items, hitems, havoids⟩ := Utf8.head_items hb hfirst rest
    rw [decode, hitems, List.map_cons, List.head?_cons]
    intro hhead
    have hhead : item.getD '\uFFFD' = Char.ofNat b.toNat := Option.some.inj hhead
    cases item with
    | none =>
      have hcode : ('\uFFFD').toNat = b.toNat := (congrArg Char.toNat hhead).trans hchar
      have hhigh : ('\uFFFD').toNat = 0xFFFD := rfl
      omega
    | some c => exact havoids c rfl ((congrArg Char.toNat hhead).trans hchar)

/-- A text ends with an ASCII character only if its last byte is that character. -/
theorem getLast?_decode {b : UInt8} (hb : 0 < b.toNat ∧ b.toNat < 0x80) {bytes : Bytes}
    (h : bytes.getLast? ≠ some b) : (decode bytes).getLast? ≠ some (Char.ofNat b.toNat) := by
  have hchar : (Char.ofNat b.toNat).toNat = b.toNat :=
    (Utf8.toNat_of_lead (Utf8.lead_ascii hb.2)).symm
  have hwithout : ∀ back : Bytes, b ∉ back →
      (decode back).getLast? ≠ some (Char.ofNat b.toNat) := by
    intro back hback hlast
    obtain ⟨x, hx, heq⟩ :=
      exists_byte_of_mem_decode (by rw [hchar]; exact hb) (List.mem_of_getLast? hlast)
    rw [hchar] at heq
    exact hback (UInt8.toNat_inj.mp heq ▸ hx)
  by_cases hmem : b ∈ bytes.reverse
  · -- Behind the last of these bytes stands another one.
    obtain ⟨back, front, hsplit, hback⟩ := List.eq_append_cons_of_mem hmem
    have hbytes : bytes = front.reverse ++ b :: back.reverse := by
      rw [← List.reverse_reverse bytes, hsplit]
      simp
    have hne : back.reverse ≠ [] := by
      rintro hnil
      rw [hbytes, hnil] at h
      exact h List.getLast?_concat
    have hlast := List.getLast?_eq_some_getLast (decode_ne_nil hne)
    have hother := hwithout back.reverse fun hb => hback (List.mem_reverse.mp hb)
    rw [hlast] at hother
    rw [hbytes, decode_append_ascii hb.2, List.getLast?_append, List.getLast?_cons, hlast]
    exact hother
  · exact hwithout _ fun hb => hmem (List.mem_reverse.mpr hb)

end Apidoc.Text
