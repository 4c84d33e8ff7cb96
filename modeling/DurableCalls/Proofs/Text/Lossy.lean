/-
`Lossy.lean` -- how long a text is that was read from bytes.

Every part of the bytes is read as one character. A sequence that is complete is read as the
character that it encodes, which takes as many bytes again, and a part that goes wrong has at
most three bytes, which is what a replacement character takes. So a text that is read is never
shorter than the bytes it was read from (`length_le_ofUtf8Lossy`), and it may be longer: a byte
that leads no sequence is read as a character of three. Nothing is read as more than that
(`ofUtf8Lossy_le`).
-/
import DurableCalls.Text.Utf8
import Mathlib.Data.List.Forall2

set_option autoImplicit false

namespace DurableCalls.Text

variable {ranges : List (UInt8 × UInt8)} {rest : List UInt8} {lead : UInt8}

/-! ## Characters -/

theorem utf8ByteSize_ofList_cons (char : Char) (chars : List Char) :
    (String.ofList (char :: chars)).utf8ByteSize
      = char.utf8Size + (String.ofList chars).utf8ByteSize := by
  rw [String.ofList_cons, String.utf8ByteSize_append, String.utf8ByteSize_singleton]

/-- How many bytes the character with a number takes. -/
theorem utf8Size_ofNat {n : Nat} (h : n.isValidChar) : (Char.ofNat n).utf8Size =
    if n ≤ 0x7F then 1 else if n ≤ 0x7FF then 2 else if n ≤ 0xFFFF then 3 else 4 := by
  have hval : (Char.ofNat n).val.toNat = n := by
    rw [Char.ofNat, dif_pos h]
    rfl
  simp only [Char.utf8Size, UInt32.le_iff_toNat_le, hval]
  rfl

/-! ## Sequences -/

/-- The bytes of a complete sequence lie in their ranges. -/
theorem forall₂_of_matching (h : matching ranges rest = ranges.length) :
    List.Forall₂ (fun range b => range.1 ≤ b ∧ b ≤ range.2) ranges (rest.take ranges.length) := by
  induction ranges generalizing rest with
  | nil => exact .nil
  | cons range ranges ih =>
    cases rest with
    | nil => simp [matching] at h
    | cons b rest =>
      rw [matching] at h
      by_cases hin : range.1 ≤ b ∧ b ≤ range.2
      · rw [if_pos hin, List.length_cons] at h
        exact .cons hin (ih (Nat.succ.inj h))
      · rw [if_neg hin, List.length_cons] at h
        cases h

theorem matching_le (ranges : List (UInt8 × UInt8)) (rest : List UInt8) :
    matching ranges rest ≤ ranges.length ∧ matching ranges rest ≤ rest.length := by
  induction ranges generalizing rest with
  | nil => simp [matching]
  | cons range ranges ih =>
    cases rest with
    | nil => simp [matching]
    | cons b rest =>
      rw [matching]
      split
      · have hrest := ih rest
        simp only [List.length_cons]
        omega
      · exact ⟨Nat.zero_le _, Nat.zero_le _⟩

/-- The lead of a sequence and the ranges of what comes behind it. The second byte keeps the
sequence from a number that a shorter one has, and from the numbers that no character has. -/
inductive Leads (lead : Nat) : List (UInt8 × UInt8) → Prop
  | one (low : lead < 0x80) : Leads lead []
  | two (low : 0xC2 ≤ lead) (high : lead < 0xE0) : Leads lead [(0x80, 0xBF)]
  | three {first last : UInt8} (low : 0xE0 ≤ lead) (high : lead < 0xF0)
      (from_le : 0x80 ≤ first.toNat) (le_to : last.toNat ≤ 0xBF)
      (least : lead = 0xE0 → 0xA0 ≤ first.toNat) (most : lead = 0xED → last.toNat ≤ 0x9F) :
      Leads lead [(first, last), (0x80, 0xBF)]
  | four {first last : UInt8} (low : 0xF0 ≤ lead) (high : lead ≤ 0xF4)
      (from_le : 0x80 ≤ first.toNat) (le_to : last.toNat ≤ 0xBF)
      (least : lead = 0xF0 → 0x90 ≤ first.toNat) (most : lead = 0xF4 → last.toNat ≤ 0x8F) :
      Leads lead [(first, last), (0x80, 0xBF), (0x80, 0xBF)]

theorem leads_of_continuations (h : continuations lead = some ranges) :
    Leads lead.toNat ranges := by
  have hnum : ∀ b : UInt8, lead = b ↔ lead.toNat = b.toNat := fun b => UInt8.toNat_inj.symm
  simp only [continuations, UInt8.lt_iff_toNat_lt, hnum, UInt8.reduceToNat] at h
  -- the leading bytes in their order, as the table has them
  split_ifs at h with h80 hC2 hE0 hisE0 hisED hF0 hisF0 hF4 hisF4
  · cases h
    exact .one h80
  · cases h
    exact .two (by omega) hE0
  · cases h
    exact .three (by omega) (by omega) (by decide) (by decide) (fun _ => by decide) (by omega)
  · cases h
    exact .three (by omega) (by omega) (by decide) (by decide) (by omega) (fun _ => by decide)
  · cases h
    exact .three (by omega) hF0 (by decide) (by decide) (by omega) (by omega)
  · cases h
    exact .four (by omega) (by omega) (by decide) (by decide) (fun _ => by decide) (by omega)
  · cases h
    exact .four (by omega) (by omega) (by decide) (by decide) (by omega) (by omega)
  · cases h
    exact .four (by omega) (by omega) (by decide) (by decide) (by omega) (fun _ => by decide)

/-- No sequence has more than three bytes behind its lead. -/
theorem Leads.length_le {lead : Nat} (h : Leads lead ranges) : ranges.length ≤ 3 := by
  cases h with
  | one => exact Nat.zero_le 3
  | two => exact Nat.le_add_left 1 2
  | three => exact Nat.le_succ 2
  | four => exact Nat.le_refl 3

/-- **A complete sequence is as long as the character that it encodes.** The ranges of the bytes
behind the lead keep out the longer forms of a character and the numbers that are none, so its
number is in the range of those that take as many bytes. -/
theorem utf8Size_sequenceChar {behind : List UInt8} (h : Leads lead.toNat ranges)
    (hbehind : List.Forall₂ (fun range b => range.1 ≤ b ∧ b ≤ range.2) ranges behind) :
    (sequenceChar lead behind).utf8Size = behind.length + 1 := by
  simp only [UInt8.le_iff_toNat_le] at hbehind
  -- the number of the character is in the range of those that take so many bytes
  cases h with
  | one low =>
    cases hbehind
    show (Char.ofNat lead.toNat).utf8Size = 1
    have hvalid : lead.toNat.isValidChar := .inl (by omega)
    rw [utf8Size_ofNat hvalid, if_pos (by omega)]
  | two low high =>
    obtain _ | @⟨_, b, _, _, ⟨hfrom, hto⟩, _ | _⟩ := hbehind
    simp only [UInt8.reduceToNat] at hfrom hto
    show (Char.ofNat (lead.toNat % 32 * 64 + b.toNat % 64)).utf8Size = 2
    have hvalid : (lead.toNat % 32 * 64 + b.toNat % 64).isValidChar := .inl (by omega)
    rw [utf8Size_ofNat hvalid, if_neg (by omega), if_pos (by omega)]
  | three low high from_le le_to least most =>
    obtain _ | @⟨_, b, _, _, ⟨hfrom, hto⟩, _ | @⟨_, c, _, _, ⟨hfrom', hto'⟩, _ | _⟩⟩ := hbehind
    simp only [UInt8.reduceToNat] at hfrom' hto'
    dsimp only at hfrom hto
    show (Char.ofNat ((lead.toNat % 16 * 64 + b.toNat % 64) * 64 + c.toNat % 64)).utf8Size = 3
    have hvalid : ((lead.toNat % 16 * 64 + b.toNat % 64) * 64 + c.toNat % 64).isValidChar := by
      unfold Nat.isValidChar
      omega
    rw [utf8Size_ofNat hvalid, if_neg (by omega), if_neg (by omega), if_pos (by omega)]
  | four low high from_le le_to least most =>
    obtain _ | @⟨_, b, _, _, ⟨hfrom, hto⟩, _ | @⟨_, c, _, _, ⟨hfrom', hto'⟩,
      _ | @⟨_, d, _, _, ⟨hfrom'', hto''⟩, _ | _⟩⟩⟩ := hbehind
    simp only [UInt8.reduceToNat] at hfrom' hto' hfrom'' hto''
    dsimp only at hfrom hto
    show (Char.ofNat (((lead.toNat % 8 * 64 + b.toNat % 64) * 64 + c.toNat % 64) * 64
      + d.toNat % 64)).utf8Size = 4
    have hvalid : (((lead.toNat % 8 * 64 + b.toNat % 64) * 64 + c.toNat % 64) * 64
        + d.toNat % 64).isValidChar := by
      unfold Nat.isValidChar
      omega
    rw [utf8Size_ofNat hvalid, if_neg (by omega), if_neg (by omega), if_neg (by omega)]

/-! ## Texts -/

/-- The character for a part of the bytes is no shorter than the part. -/
theorem matching_lt_utf8Size (h : Leads lead.toNat ranges) (rest : List UInt8) :
    matching ranges rest < (if matching ranges rest = ranges.length then
      sequenceChar lead (rest.take (matching ranges rest)) else replacement).utf8Size := by
  obtain ⟨hranges, hrest⟩ := matching_le ranges rest
  by_cases hwhole : matching ranges rest = ranges.length
  · rw [if_pos hwhole, hwhole, utf8Size_sequenceChar h (forall₂_of_matching hwhole),
      List.length_take]
    omega
  · have hthree : replacement.utf8Size = 3 := by decide
    have hmost := h.length_le
    rw [if_neg hwhole, hthree]
    omega

/-- Nor is it longer than three bytes for each byte of the part. -/
theorem utf8Size_le_matching (h : Leads lead.toNat ranges) (rest : List UInt8) :
    (if matching ranges rest = ranges.length then
      sequenceChar lead (rest.take (matching ranges rest)) else replacement).utf8Size
      ≤ 3 * (matching ranges rest + 1) := by
  obtain ⟨hranges, hrest⟩ := matching_le ranges rest
  by_cases hwhole : matching ranges rest = ranges.length
  · rw [if_pos hwhole, hwhole, utf8Size_sequenceChar h (forall₂_of_matching hwhole),
      List.length_take]
    omega
  · have hthree : replacement.utf8Size = 3 := by decide
    rw [if_neg hwhole, hthree]
    omega

/-- No part of the bytes is longer than its character, by induction along the parts. -/
theorem length_le_replacing (bytes : List UInt8) :
    bytes.length ≤ (String.ofList (replacing bytes)).utf8ByteSize := by
  induction bytes using replacing.induct with
  | case1 => exact Nat.zero_le _
  | case2 lead rest hnone ih =>
    have hthree : replacement.utf8Size = 3 := by decide
    simp only [replacing, hnone, List.length_cons, utf8ByteSize_ofList_cons]
    omega
  | case3 lead rest ranges hsome n ih =>
    have hchar := matching_lt_utf8Size (leads_of_continuations hsome) rest
    have hbehind : rest.length - matching ranges rest
        ≤ (String.ofList (replacing (rest.drop (matching ranges rest)))).utf8ByteSize := by
      rw [← List.length_drop]
      exact ih
    simp only [replacing, hsome, List.length_cons, utf8ByteSize_ofList_cons]
    omega

/-- **A text is no shorter than the bytes that it was read from.** A character takes the place of as
many bytes as it has, and a replacement has three bytes, which is as many as a broken sequence can
have. -/
theorem length_le_ofUtf8Lossy (bytes : List UInt8) :
    bytes.length ≤ (ofUtf8Lossy bytes).utf8ByteSize := by
  unfold ofUtf8Lossy String.fromUTF8?
  split
  next s hs =>
    split at hs
    next =>
      cases hs
      exact Nat.le_refl _
    next => cases hs
  next =>
    exact length_le_replacing bytes

/-- No character is longer than three bytes for each byte of its part. The replacement character has
three bytes, and it stands for one byte at least. -/
theorem replacing_le (bytes : List UInt8) :
    (String.ofList (replacing bytes)).utf8ByteSize ≤ 3 * bytes.length := by
  induction bytes using replacing.induct with
  | case1 =>
    rw [replacing]
    exact Nat.zero_le _
  | case2 lead rest hnone ih =>
    have hthree : replacement.utf8Size = 3 := by decide
    simp only [replacing, hnone, List.length_cons, utf8ByteSize_ofList_cons]
    omega
  | case3 lead rest ranges hsome n ih =>
    have hchar := utf8Size_le_matching (leads_of_continuations hsome) rest
    have hrest := (matching_le ranges rest).2
    have hbehind : (String.ofList (replacing (rest.drop (matching ranges rest)))).utf8ByteSize
        ≤ 3 * (rest.length - matching ranges rest) := by
      rw [← List.length_drop]
      exact ih
    simp only [replacing, hsome, List.length_cons, utf8ByteSize_ofList_cons]
    omega

/-- **A text has at most three bytes** for each byte that it was read from. The replacement of a
single byte is the worst case. -/
theorem ofUtf8Lossy_le (bytes : List UInt8) :
    (ofUtf8Lossy bytes).utf8ByteSize ≤ 3 * bytes.length := by
  unfold ofUtf8Lossy String.fromUTF8?
  split
  next s hs =>
    split at hs
    next =>
      cases hs
      show bytes.length ≤ 3 * bytes.length
      omega
    next => cases hs
  next =>
    exact replacing_le bytes

end DurableCalls.Text
