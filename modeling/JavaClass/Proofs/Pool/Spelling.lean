/-
Two ways to ask which text stands at an index. One reads the bytes that are there, the other writes
the text that is wanted and compares. They need not agree, since a text can be read from other bytes
than those that are written for it, with a group longer than it has to be, and a file may have such
bytes. They agree on the bytes of which no fewer are read as the text, and on no others; so a text
that is found by its bytes is the one that is read there, and one that is read may not be found.
-/

import JavaClass.Pool.Encoding
import JavaClass.Proofs.Outcome
import JavaClass.Proofs.Text.ModifiedUtf8

namespace JavaClass.Pool

open Text.ModifiedUtf8 (IsShortest decode decode_encode encode isShortest_iff)

variable {pool : Pool} {index : UInt16} {wanted : String}

theorem text_eq_ok_iff :
    pool.text index = .ok wanted ↔
      ∃ bytes, pool.utf8 index = .ok bytes ∧ decode bytes = .ok wanted := by
  simp only [text, Outcome.bind_eq_ok_iff]
  refine exists_congr fun bytes => and_congr_right fun _ => ?_
  cases decode bytes with
  | error reason => exact iff_of_false nofun nofun
  | ok text => rw [Outcome.pure_eq_ok_iff, Except.ok.injEq]

/-- What was written for a text is read as it. -/
theorem text_of_utf8 (found : pool.utf8 index = .ok (encode wanted)) :
    pool.text index = .ok wanted :=
  text_eq_ok_iff.mpr ⟨_, found, decode_encode wanted⟩

theorem isText_eq_ok_true_iff :
    pool.isText index wanted = .ok true ↔ pool.utf8 index = .ok (encode wanted) := by
  simp only [isText, Outcome.bind_eq_ok_iff, Outcome.pure_eq_ok_iff, beq_iff_eq]
  constructor
  · rintro ⟨bytes, found, rfl⟩
    exact found
  · intro found
    exact ⟨_, found, rfl⟩

/-- Bytes are found to be a text exactly if they are read as it and no fewer bytes are. -/
theorem isText_iff_text_and_isShortest (pool : Pool) (index : UInt16) (wanted : String) :
    pool.isText index wanted = .ok true ↔
      pool.text index = .ok wanted ∧
        ∃ bytes, pool.utf8 index = .ok bytes ∧ IsShortest bytes wanted := by
  rw [isText_eq_ok_true_iff, text_eq_ok_iff]
  simp only [isShortest_iff]
  constructor
  · intro found
    exact ⟨text_eq_ok_iff.mp (text_of_utf8 found), _, found, rfl⟩
  · rintro ⟨-, bytes, found, rfl⟩
    exact found

/-- A pool in a file, whose only constant is the letter A in a group of two bytes. -/
def bytesOfLongGroup : Bytes := [0, 2, 1, 0, 2, 0xC1, 0x81]

/-- A text that is read at an index and is not found there. -/
theorem exists_text_not_isText :
    ∃ pool, Pool.read bytesOfLongGroup = .ok (pool, []) ∧ pool.text 1 = .ok "A" ∧
      pool.isText 1 "A" = .ok false := by
  have asked : (Pool.read bytesOfLongGroup).map (fun found =>
      (found.2, found.1.text 1, found.1.isText 1 "A")) = .ok ([], .ok "A", .ok false) := by
    decide +kernel
  obtain ⟨⟨pool, rest⟩, read, answers⟩ := Outcome.map_eq_ok_iff.mp asked
  simp only [Prod.mk.injEq] at answers
  obtain ⟨rfl, text, isText⟩ := answers
  exact ⟨pool, read, text, isText⟩

end JavaClass.Pool
