import Mathlib.Data.List.Forall2
import Mathlib.Tactic.Common
import Reckoner.Text.Utf8

/-!
# Texts in UTF-8 and back

The bytes of a character are read as that character, whatever follows, so that the bytes of a text are read as the text
without any fault, strictly or not. A fault ends before the next byte of ASCII at the latest, so that what stands before a
line feed does not change how the bytes behind it are read.
-/
namespace Reckoner.Text

theorem takeInRanges_append {ranges : List (UInt8 × UInt8)} {fs : List UInt8}
    (h : List.Forall₂ (fun r f => r.1 ≤ f ∧ f ≤ r.2) ranges fs) (bs : List UInt8) :
    takeInRanges ranges (fs ++ bs) = (fs, bs) := by
  induction h with
  | nil => rfl
  | @cons r f ranges fs hf _ ih =>
    obtain ⟨lo, hi⟩ := r
    rw [List.cons_append, takeInRanges, if_pos hf, ih]

private def leadBits (b : UInt8) : Nat :=
  if b < 0x80 then b.toNat
  else if b < 0xE0 then b.toNat - 0xC0
  else if b < 0xF0 then b.toNat - 0xE0
  else b.toNat - 0xF0

private theorem readUtf8_cons {b : UInt8} {ranges : List (UInt8 × UInt8)} {k : Nat}
    (hb : utf8Followers b = some ranges ∧ leadBits b = k) {fs : List UInt8}
    (h : List.Forall₂ (fun r f => r.1 ≤ f ∧ f ≤ r.2) ranges fs) (bs : List UInt8) : readUtf8 (b :: fs ++ bs) =
      some (Char.ofNat (fs.foldl (fun n f => n * 64 + (f.toNat - 0x80)) k)) :: readUtf8 bs := by
  have hchar : utf8Char b fs = Char.ofNat (fs.foldl (fun n f => n * 64 + (f.toNat - 0x80)) (leadBits b)) := rfl
  rw [List.cons_append, readUtf8, hb.1]
  simp only [takeInRanges_append h, h.length_eq, if_true, hchar, hb.2]

private theorem toNat_ofNat {n : Nat} (h : n < 256) : (UInt8.ofNat n).toNat = n := by
  rw [UInt8.toNat_ofNat']
  exact Nat.mod_eq_of_lt h

private theorem ofNat_mem_range {lo hi : UInt8} {n : Nat} (hlo : lo.toNat ≤ n) (hhi : n ≤ hi.toNat) :
    lo ≤ UInt8.ofNat n ∧ UInt8.ofNat n ≤ hi := by
  have hn : n < 256 := Nat.lt_of_le_of_lt hhi hi.toNat_lt
  rw [UInt8.le_iff_toNat_le, UInt8.le_iff_toNat_le, toNat_ofNat hn]
  exact ⟨hlo, hhi⟩

/-- A character of three bytes has its first follower above those of two and apart from the surrogates, … -/
private def firstOfThree (k : Nat) : UInt8 × UInt8 :=
  (if k = 0 then 0xA0 else 0x80, if k = 13 then 0x9F else 0xBF)

/-- … and one of four bytes above those of three and below U+110000. -/
private def firstOfFour (k : Nat) : UInt8 × UInt8 :=
  (if k = 0 then 0x90 else 0x80, if k = 4 then 0x8F else 0xBF)

private theorem lead_one : ∀ k < 0x80, utf8Followers (UInt8.ofNat k) = some [] ∧ leadBits (UInt8.ofNat k) = k := by
  decide

private theorem lead_two : ∀ k < 32, 2 ≤ k →
    utf8Followers (UInt8.ofNat (k + 0xC0)) = some [(0x80, 0xBF)] ∧ leadBits (UInt8.ofNat (k + 0xC0)) = k := by
  decide

private theorem lead_three : ∀ k < 16, utf8Followers (UInt8.ofNat (k + 0xE0)) = some [firstOfThree k, (0x80, 0xBF)] ∧
    leadBits (UInt8.ofNat (k + 0xE0)) = k := by
  decide

private theorem lead_four : ∀ k < 5,
    utf8Followers (UInt8.ofNat (k + 0xF0)) = some [firstOfFour k, (0x80, 0xBF), (0x80, 0xBF)] ∧
      leadBits (UInt8.ofNat (k + 0xF0)) = k := by
  decide

private theorem toNat_follower (n : Nat) : (UInt8.ofNat (n % 64 + 0x80)).toNat - 0x80 = n % 64 := by
  rw [toNat_ofNat (by omega)]
  omega

private theorem follower_mem_range (n : Nat) :
    (0x80 : UInt8) ≤ UInt8.ofNat (n % 64 + 0x80) ∧ UInt8.ofNat (n % 64 + 0x80) ≤ 0xBF := by
  apply ofNat_mem_range
  · exact Nat.le_add_left _ _
  · change n % 64 + 0x80 ≤ 0xBF
    omega

private theorem firstOfThree_mem_range {n : Nat} (hn : 0x800 ≤ n) (hvalid : n < 0xD800 ∨ 0xDFFF < n) :
    (firstOfThree (n / 4096)).1 ≤ UInt8.ofNat (n / 64 % 64 + 0x80) ∧
      UInt8.ofNat (n / 64 % 64 + 0x80) ≤ (firstOfThree (n / 4096)).2 := by
  apply ofNat_mem_range
  · simp only [firstOfThree]
    split
    · change 0xA0 ≤ n / 64 % 64 + 0x80
      omega
    · exact Nat.le_add_left _ _
  · simp only [firstOfThree]
    split
    · change n / 64 % 64 + 0x80 ≤ 0x9F
      omega
    · change n / 64 % 64 + 0x80 ≤ 0xBF
      omega

private theorem firstOfFour_mem_range {n : Nat} (hlo : 0x10000 ≤ n) (hhi : n < 0x110000) :
    (firstOfFour (n / 262144)).1 ≤ UInt8.ofNat (n / 4096 % 64 + 0x80) ∧
      UInt8.ofNat (n / 4096 % 64 + 0x80) ≤ (firstOfFour (n / 262144)).2 := by
  apply ofNat_mem_range
  · simp only [firstOfFour]
    split
    · change 0x90 ≤ n / 4096 % 64 + 0x80
      omega
    · exact Nat.le_add_left _ _
  · simp only [firstOfFour]
    split
    · change n / 4096 % 64 + 0x80 ≤ 0x8F
      omega
    · change n / 4096 % 64 + 0x80 ≤ 0xBF
      omega

/-- A character is read from its bytes, whatever follows. -/
theorem readUtf8_utf8EncodeChar (c : Char) (bs : List UInt8) :
    readUtf8 (String.utf8EncodeChar c ++ bs) = some c :: readUtf8 bs := by
  have hvalid : c.val.toNat < 0xD800 ∨ (0xDFFF < c.val.toNat ∧ c.val.toNat < 0x110000) := c.valid
  have hc : Char.ofNat c.val.toNat = c := Char.ofNat_toNat c
  unfold String.utf8EncodeChar
  generalize c.val.toNat = n at hvalid hc
  dsimp only
  split
  · next h1 =>
    rw [readUtf8_cons (lead_one n (by omega)) .nil, List.foldl_nil, hc]
  split
  · next h1 h2 =>
    have hk : n / 64 % 0x20 = n / 64 := by omega
    rw [hk, readUtf8_cons (lead_two (n / 64) (by omega) (by omega)) (.cons (follower_mem_range n) .nil)]
    simp only [List.foldl_cons, List.foldl_nil, toNat_follower]
    rw [← hc]
    congr 3
    omega
  split
  · next h1 h2 h3 =>
    have hk : n / 4096 % 0x10 = n / 4096 := by omega
    have hfirst := firstOfThree_mem_range (n := n) (by omega) (by omega)
    rw [hk, readUtf8_cons (lead_three (n / 4096) (by omega)) (.cons hfirst (.cons (follower_mem_range n) .nil))]
    simp only [List.foldl_cons, List.foldl_nil, toNat_follower]
    rw [← hc]
    congr 3
    omega
  · next h1 h2 h3 =>
    have hk : n / 262144 % 0x08 = n / 262144 := by omega
    have hfirst := firstOfFour_mem_range (n := n) (by omega) (by omega)
    rw [hk, readUtf8_cons (lead_four (n / 262144) (by omega))
      (.cons hfirst (.cons (follower_mem_range (n / 64)) (.cons (follower_mem_range n) .nil)))]
    simp only [List.foldl_cons, List.foldl_nil, toNat_follower]
    rw [← hc]
    congr 3
    omega

theorem toUtf8_append (xs ys : List Char) : toUtf8 (xs ++ ys) = toUtf8 xs ++ toUtf8 ys :=
  List.flatMap_append

theorem readUtf8_toUtf8 (cs : List Char) : readUtf8 (toUtf8 cs) = cs.map some := by
  induction cs with
  | nil => rw [toUtf8, List.flatMap_nil, readUtf8, List.map_nil]
  | cons c cs ih => rw [toUtf8, List.flatMap_cons, readUtf8_utf8EncodeChar, List.map_cons, ← ih, toUtf8]

@[simp] theorem ofUtf8?_toUtf8 (cs : List Char) : ofUtf8? (toUtf8 cs) = some cs := by
  rw [ofUtf8?, readUtf8_toUtf8]
  induction cs with
  | nil => rfl
  | cons c cs ih => simp [List.mapM_cons, ih]

@[simp] theorem ofUtf8Lossy_toUtf8 (cs : List Char) : ofUtf8Lossy (toUtf8 cs) = cs := by
  rw [ofUtf8Lossy, readUtf8_toUtf8, List.map_map]
  exact List.map_id cs

/-! ### Faults -/

theorem le_of_mem_utf8Followers {b : UInt8} {ranges : List (UInt8 × UInt8)} (h : utf8Followers b = some ranges)
    {r : UInt8 × UInt8} (hr : r ∈ ranges) : 0x80 ≤ r.1 := by
  simp only [utf8Followers] at h
  repeat' split at h
  all_goals cases h
  all_goals simp only [List.mem_cons, List.not_mem_nil, or_false, or_self] at hr
  all_goals rcases hr with rfl | rfl | rfl <;> decide

theorem takeInRanges_append_cons {x : UInt8} (hx : x < 0x80) {ranges : List (UInt8 × UInt8)}
    (hr : ∀ r ∈ ranges, 0x80 ≤ r.1) (bs ys : List UInt8) : takeInRanges ranges (bs ++ x :: ys) =
      ((takeInRanges ranges bs).1, (takeInRanges ranges bs).2 ++ x :: ys) := by
  induction ranges generalizing bs with
  | nil => cases bs <;> rfl
  | cons r ranges ih =>
    obtain ⟨hlo, hrs⟩ := List.forall_mem_cons.1 hr
    cases bs with
    | nil =>
      -- Every follower is at least 0x80, so the byte is none, whatever the range.
      have hout : ¬(r.1 ≤ x ∧ x ≤ r.2) := fun h => absurd (UInt8.le_trans hlo h.1) (UInt8.not_le.2 hx)
      simp only [List.nil_append, takeInRanges, if_neg hout]
    | cons b bs =>
      simp only [List.cons_append, takeInRanges, ih hrs]
      split <;> rfl

/-- Reading begins anew at a byte of ASCII, whatever was broken off before it. -/
theorem readUtf8_append_cons {x : UInt8} (hx : x < 0x80) (bs ys : List UInt8) :
    readUtf8 (bs ++ x :: ys) = readUtf8 bs ++ readUtf8 (x :: ys) := by
  fun_induction readUtf8 bs with
  | case1 => rfl
  | case2 b bs hb ih =>
    rw [List.cons_append, readUtf8, hb]
    simp only [ih, List.cons_append]
  | case3 b bs ranges hb parts ih =>
    have hparts := takeInRanges_append_cons hx (fun r => le_of_mem_utf8Followers hb) bs ys
    rw [List.cons_append, readUtf8, hb]
    simp only [hparts, List.cons_append]
    rw [ih]

theorem ofUtf8Lossy_append_newline (bs ys : List UInt8) :
    ofUtf8Lossy (bs ++ 0x0A :: ys) = ofUtf8Lossy bs ++ '\n' :: ofUtf8Lossy ys := by
  have hnewline : readUtf8 (0x0A :: ys) = some '\n' :: readUtf8 ys := readUtf8_utf8EncodeChar '\n' ys
  simp only [ofUtf8Lossy, readUtf8_append_cons (by decide : (0x0A : UInt8) < 0x80), hnewline, List.map_append,
    List.map_cons, Option.getD_some]

end Reckoner.Text
