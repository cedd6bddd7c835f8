import Mathlib.Tactic.IntervalCases
import Schemelet.Text.Utf8

/-! Texts as octets. Every text is what its octets are decoded to: the lead octet of a character
says how many follow, and the range of the first of these leaves out no character. -/

namespace Schemelet.Utf8

def encode (cs : List Char) : List UInt8 := cs.flatMap String.utf8EncodeChar

theorem toNat_octet {n : Nat} (small : n < 256) : (UInt8.ofNat n).toNat = n :=
  UInt8.toNat_ofNat_of_lt' small

namespace Pending

variable {n : Nat} (start : Nat)

theorem ofLead?_two (low : 2 ≤ n) (high : n < 32) :
    ofLead? start (UInt8.ofNat (n + 192)) =
      some ⟨UInt8.ofNat (n + 192), start, n, 1, 0x80, 0xBF⟩ := by
  interval_cases n <;> rfl

theorem ofLead?_three (high : n < 16) :
    ofLead? start (UInt8.ofNat (n + 224)) =
      some ⟨UInt8.ofNat (n + 224), start, n, 2, if n = 0 then 0xA0 else 0x80,
        if n = 13 then 0x9F else 0xBF⟩ := by
  interval_cases n <;> rfl

theorem ofLead?_four (high : n < 5) :
    ofLead? start (UInt8.ofNat (n + 240)) =
      some ⟨UInt8.ofNat (n + 240), start, n, 3, if n = 0 then 0x90 else 0x80,
        if n = 4 then 0x8F else 0xBF⟩ := by
  interval_cases n <;> rfl

end Pending

section

variable {pos : Nat} {rest : List UInt8}

theorem decodeFrom_single {n : Nat} (small : n < 128) :
    decodeFrom pos none (UInt8.ofNat n :: rest) =
      (Char.ofNat n :: ·) <$> decodeFrom (pos + 1) none rest := by
  have octet := toNat_octet (n := n) (by omega)
  have less : UInt8.ofNat n < 0x80 := by
    rw [UInt8.lt_iff_toNat_lt, octet]
    exact small
  rw [decodeFrom, if_pos less, octet]

theorem decodeFrom_lead {n : Nat} {p : Pending} (large : 128 ≤ n) (octet : n < 256)
    (lead : Pending.ofLead? pos (UInt8.ofNat n) = some p) :
    decodeFrom pos none (UInt8.ofNat n :: rest) = decodeFrom (pos + 1) (some p) rest := by
  have notLess : ¬ UInt8.ofNat n < 0x80 := by
    rw [UInt8.lt_iff_toNat_lt, toNat_octet octet]
    exact Nat.not_lt.mpr large
  rw [decodeFrom, if_neg notLess, lead]

variable {p : Pending} {n : Nat} (small : n < 64) (low : p.low.toNat ≤ n + 128)
  (high : n + 128 ≤ p.high.toNat)

include small low high

theorem decodeFrom_pending :
    decodeFrom pos (some p) (UInt8.ofNat (n + 128) :: rest) =
      if p.owed = 1 then (Char.ofNat (p.code * 64 + n) :: ·) <$> decodeFrom (pos + 1) none rest
      else decodeFrom (pos + 1)
        (some ⟨p.lead, p.start, p.code * 64 + n, p.owed - 1, 0x80, 0xBF⟩) rest := by
  have octet := toNat_octet (n := n + 128) (by omega)
  have within : (p.low ≤ UInt8.ofNat (n + 128) && UInt8.ofNat (n + 128) ≤ p.high) = true := by
    simp only [Bool.and_eq_true, decide_eq_true_eq, UInt8.le_iff_toNat_le, octet]
    exact ⟨low, high⟩
  have bits : (UInt8.ofNat (n + 128)).toNat - 0x80 = n := by
    rw [octet]
    omega
  rw [decodeFrom, if_pos within, Pending.next, bits]

end

theorem decodeFrom_encodeChar (pos : Nat) (c : Char) (rest : List UInt8) :
    ∃ next, decodeFrom pos none (String.utf8EncodeChar c ++ rest) =
      (c :: ·) <$> decodeFrom next none rest := by
  have valid : c.val.toNat < 0xD800 ∨ 0xDFFF < c.val.toNat ∧ c.val.toNat < 0x110000 := c.valid
  have back : Char.ofNat c.val.toNat = c := c.ofNat_toNat
  unfold String.utf8EncodeChar
  generalize c.val.toNat = v at valid back
  dsimp only
  split
  · refine ⟨pos + 1, ?_⟩
    rw [List.singleton_append, decodeFrom_single (by omega), back]
  split
  · refine ⟨pos + 1 + 1, ?_⟩
    have code : v / 64 % 32 * 64 + v % 64 = v := by omega
    rw [List.cons_append, List.singleton_append,
      decodeFrom_lead (by omega) (by omega) (Pending.ofLead?_two pos (by omega) (by omega)),
      decodeFrom_pending (by omega) (by simp) (by simp; omega)]
    simp only [if_true, code, back]
  split
  · refine ⟨pos + 1 + 1 + 1, ?_⟩
    have code : (v / 4096 % 16 * 64 + v / 64 % 64) * 64 + v % 64 = v := by omega
    have low : (if v / 4096 % 16 = 0 then 0xA0 else 0x80 : UInt8).toNat ≤ v / 64 % 64 + 128 := by
      split
      · simp
        omega
      · simp
    have high : v / 64 % 64 + 128 ≤ (if v / 4096 % 16 = 13 then 0x9F else 0xBF : UInt8).toNat := by
      split <;> simp <;> omega
    rw [List.cons_append, List.cons_append, List.singleton_append,
      decodeFrom_lead (by omega) (by omega) (Pending.ofLead?_three pos (by omega)),
      decodeFrom_pending (by omega) low high]
    simp only [OfNat.ofNat_ne_one, if_false]
    rw [decodeFrom_pending (by omega) (by simp) (by simp; omega)]
    simp only [if_true, code, back]
  · refine ⟨pos + 1 + 1 + 1 + 1, ?_⟩
    have code : ((v / 262144 % 8 * 64 + v / 4096 % 64) * 64 + v / 64 % 64) * 64 + v % 64 = v := by
      omega
    have low : (if v / 262144 % 8 = 0 then 0x90 else 0x80 : UInt8).toNat ≤ v / 4096 % 64 + 128 := by
      split
      · simp
        omega
      · simp
    have high :
        v / 4096 % 64 + 128 ≤ (if v / 262144 % 8 = 4 then 0x8F else 0xBF : UInt8).toNat := by
      split <;> simp <;> omega
    rw [List.cons_append, List.cons_append, List.cons_append, List.singleton_append,
      decodeFrom_lead (by omega) (by omega) (Pending.ofLead?_four pos (by omega)),
      decodeFrom_pending (by omega) low high]
    simp only [OfNat.ofNat_ne_one, if_false]
    rw [decodeFrom_pending (by omega) (by simp) (by simp; omega)]
    simp only [Nat.add_one_sub_one, OfNat.ofNat_ne_one, if_false]
    rw [decodeFrom_pending (by omega) (by simp) (by simp; omega)]
    simp only [if_true, code, back]

theorem decodeFrom_encode (pos : Nat) (cs : List Char) :
    decodeFrom pos none (encode cs) = .ok cs := by
  induction cs generalizing pos with
  | nil => rfl
  | cons c cs ih =>
    obtain ⟨next, decoded⟩ := decodeFrom_encodeChar pos c (encode cs)
    change decodeFrom pos none (String.utf8EncodeChar c ++ encode cs) = _
    rw [decoded, ih]
    rfl

theorem decode_encode (cs : List Char) : decode (encode cs) = .ok cs := decodeFrom_encode 0 cs

end Schemelet.Utf8
