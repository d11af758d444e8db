import Parlance.Proofs.Expr.ReadingBack
import Parlance.Proofs.Expr.TokenEnds
import Parlance.Proofs.Text.Trimming

/-!
# Blanks around a text

No token goes on over a blank except inside quotes, and a quote that is closed stays closed. So a
text that can be cut into tokens is cut into the same ones with blanks around it.
-/

namespace Parlance

namespace Text

/-- The characters with the White_Space property, by their numbers. -/
def blankCodes : List Nat :=
  List.range' 9 5 ++ [32, 0x85, 0xA0, 0x1680] ++ List.range' 0x2000 11 ++
    [0x2028, 0x2029, 0x202F, 0x205F, 0x3000]

theorem mem_blankCodes {c : Char} (h : isBlank c = true) : c.toNat ∈ blankCodes := by
  simp only [isBlank, Bool.or_eq_true, Bool.and_eq_true, decide_eq_true_eq, beq_iff_eq] at h
  simp only [blankCodes, List.mem_append, List.mem_range'_1, List.mem_cons, List.not_mem_nil,
    or_false]
  omega

/-- What no blank passes can be decided by going through the blanks. -/
theorem eq_false_of_isBlank {p : Char → Bool}
    (hp : (blankCodes.all fun n => !p (Char.ofNat n)) = true) {c : Char} (h : isBlank c = true) :
    p c = false := by
  have hc := List.all_eq_true.mp hp _ (mem_blankCodes h)
  rw [Char.ofNat_toNat, Bool.not_eq_true'] at hc
  exact hc

end Text

theorem Lexeme.endsToken_of_isBlank {b : Char} (hb : Text.isBlank b = true) : EndsToken b :=
  endsToken_of_continuesToken (Text.eq_false_of_isBlank (by decide +kernel) hb)

namespace Token

theorem scan_append_blanks {source tail : List Char} {ts : List Token}
    (htail : ∀ b ∈ tail, Text.isBlank b = true) (h : scan source = .ok ts) :
    scan (source ++ tail) = .ok ts := by
  cases tail with
  | nil => rwa [List.append_nil]
  | cons b tail =>
      unfold scan at h ⊢
      cases hls : Lexeme.scan source with
      | error fault =>
          rw [hls] at h
          cases h
      | ok ls =>
          have hb := Lexeme.endsToken_of_isBlank (htail b List.mem_cons_self)
          obtain ⟨last, hlast, -, hscan⟩ := Lexeme.scan_append_ended hb hls tail
          have hblanks : ∀ c ∈ last ++ b :: tail, Text.isBlank c = true :=
            List.forall_mem_append.mpr ⟨hlast, htail⟩
          rw [hscan, Lexeme.scan_blanks hblanks, ← h, hls]
          exact congrArg (fun ls => Except.ok (ls.map Lexeme.token)) (List.append_nil ls)

theorem scan_trimStart (source : List Char) : scan (Text.trimStart source) = scan source := by
  induction source with
  | nil => rfl
  | cons b source ih =>
      rw [Text.trimStart, List.dropWhile_cons]
      split
      · next hb => rw [scan_blank hb, ← ih, Text.trimStart]
      · rfl

/-- Blanks around a text do not matter for its tokens. -/
theorem scan_of_trim {source : List Char} {ts : List Token}
    (h : scan (Text.trim source) = .ok ts) : scan source = .ok ts := by
  obtain ⟨tail, hblank, happend⟩ := Text.exists_trimEnd (Text.trimStart source)
  rw [← scan_trimStart, ← happend]
  exact scan_append_blanks hblank h

end Token

end Parlance
