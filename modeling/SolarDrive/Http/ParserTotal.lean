import SolarDrive.Http.Parser

/-!
# When feeding the parser raises

`transition_to_body` converts the `Content-Length` value with `std::stoull`
and nothing between there and the event loop catches. This file says exactly
which streams raise: those in which some header block ends while its
`Content-Length` is a text `std::stoull` rejects.
-/

namespace SolarDrive.Http

open Lib

/-- Texts `std::stoull` throws on: no digit after blanks and a sign, or a value
that does not fit in 64 bits. -/
def RejectedLength (s : Bytes) : Prop :=
  match strto s with
  | none => True
  | some (_, n) => 2 ^ 64 ≤ n

namespace HttpParser

/-- Byte `c` ends the header block of the request under way, and that block
carries a length the conversion rejects. -/
def EndsBadHeaders (p : HttpParser) (c : UInt8) : Prop :=
  c = LF ∧ (p.state = .headerLF ∨ p.state = .headerFieldStart) ∧
    p.curReq.getHeader (ascii "Content-Length") ≠ [] ∧
    RejectedLength (p.curReq.getHeader (ascii "Content-Length"))

theorem stoull_error_iff (s : Bytes) : (∃ e, stoull s = .error e) ↔ RejectedLength s := by
  unfold stoull RejectedLength
  rcases strto s with _ | ⟨neg, n⟩
  · simp
  · by_cases hn : 2 ^ 64 ≤ n
    · exact ⟨fun _ => hn, fun _ => ⟨.outOfRange, if_pos hn⟩⟩
    · refine ⟨?_, fun h => absurd h hn⟩
      rintro ⟨e, he⟩
      simp only [hn, if_false] at he
      cases he

theorem transitionToBody_error_iff (p : HttpParser) :
    (∃ e, p.transitionToBody = .error e) ↔
      p.curReq.getHeader (ascii "Content-Length") ≠ [] ∧
        RejectedLength (p.curReq.getHeader (ascii "Content-Length")) := by
  unfold transitionToBody
  by_cases hcl : p.curReq.getHeader (ascii "Content-Length") = []
  · simp [hcl]
  · rw [← stoull_error_iff]
    simp only [ne_eq, hcl, not_false_eq_true, true_and]
    cases hs : stoull (p.curReq.getHeader (ascii "Content-Length")) with
    | error e => simp
    | ok n => by_cases hn : 0 < n <;> simp [hn]

/-- One byte raises exactly when it ends a header block with a rejected
length. -/
theorem parseChar_error_iff (p : HttpParser) (c : UInt8) :
    (∃ e, p.parseChar c = .error e) ↔ p.EndsBadHeaders c := by
  by_cases hend : c = LF ∧ (p.state = .headerLF ∨ p.state = .headerFieldStart)
  · have hchar : p.parseChar c = p.transitionToBody := by
      obtain ⟨rfl, hst | hst⟩ := hend
      · simp only [parseChar, hst, if_true, if_neg (show LF ≠ CR by decide)]
      · simp only [parseChar, hst, if_true]
    rw [hchar, transitionToBody_error_iff]
    simp only [EndsBadHeaders, hend, true_and]
  · have hbad : ¬ p.EndsBadHeaders c := fun h => hend ⟨h.1, h.2.1⟩
    simp only [hbad, iff_false]
    rintro ⟨e, he⟩
    cases hst : p.state
    case headerLF =>
      have hc : c ≠ LF := fun h => hend ⟨h, Or.inl hst⟩
      simp only [parseChar, hst, if_neg hc] at he
      split at he <;> cases he
    case headerFieldStart =>
      have hc : c ≠ LF := fun h => hend ⟨h, Or.inr hst⟩
      simp only [parseChar, hst, if_neg hc] at he
      cases he
    -- no other state converts anything
    all_goals
      simp only [parseChar, hst] at he
      repeat' split at he
      all_goals cases he

theorem feedByte_error_iff (p : HttpParser) (c : UInt8) :
    (∃ e, p.feedByte c = .error e) ↔ p.EndsBadHeaders c := by
  rw [← parseChar_error_iff]
  unfold feedByte
  cases p.parseChar c with
  | error e => simp
  | ok q => by_cases hq : q.complete = true <;> simp [hq]

/-- A run raises exactly when some byte of it meets the parser at the end of a
header block with a rejected length. -/
theorem feed_error_iff (xs : Bytes) : ∀ p : HttpParser,
    (∃ e, p.feed xs = .error e) ↔
      ∃ pre c post q out, xs = pre ++ c :: post ∧ p.feed pre = .ok (q, out) ∧
        q.EndsBadHeaders c := by
  induction xs with
  | nil => intro p; simp [feed]
  | cons x xs ih =>
      intro p
      constructor
      · rintro ⟨e, he⟩
        cases hb : p.feedByte x with
        | error e' =>
            exact ⟨[], x, xs, p, [], rfl, rfl, (feedByte_error_iff p x).mp ⟨e', hb⟩⟩
        | ok r =>
            obtain ⟨p₁, out₁⟩ := r
            have htail : ∃ e, p₁.feed xs = .error e := by
              cases hf : p₁.feed xs with
              | error e' => exact ⟨e', rfl⟩
              | ok r => simp [feed, hb, hf] at he
            obtain ⟨pre, c, post, q, out, rfl, hpre, hbad⟩ := (ih p₁).mp htail
            refine ⟨x :: pre, c, post, q, out₁ ++ out, rfl, ?_, hbad⟩
            simp only [feed, hb, hpre]
      · rintro ⟨pre, c, post, q, out, hx, hpre, hbad⟩
        cases pre with
        | nil =>
            simp only [feed, Except.ok.injEq, Prod.mk.injEq] at hpre
            obtain ⟨rfl, rfl⟩ := hpre
            obtain ⟨rfl, rfl⟩ := List.cons.inj hx
            obtain ⟨e, he⟩ := (feedByte_error_iff p x).mpr hbad
            exact ⟨e, by simp only [feed, he]⟩
        | cons y pre =>
            obtain ⟨rfl, rfl⟩ := List.cons.inj hx
            cases hb : p.feedByte x with
            | error e' => exact ⟨e', by simp only [feed, hb]⟩
            | ok r =>
                obtain ⟨p₁, out₁⟩ := r
                have hpre' : ∃ out', p₁.feed pre = .ok (q, out') := by
                  cases hf : p₁.feed pre with
                  | error e' => simp [feed, hb, hf] at hpre
                  | ok r =>
                      obtain ⟨q', out'⟩ := r
                      simp only [feed, hb, hf, Except.ok.injEq, Prod.mk.injEq] at hpre
                      exact ⟨out', by rw [← hpre.1]⟩
                obtain ⟨out', hpre'⟩ := hpre'
                obtain ⟨e, he⟩ := (ih p₁).mpr ⟨pre, c, post, q, out', rfl, hpre', hbad⟩
                exact ⟨e, by simp only [feed, hb, he]⟩

/-- **Exactly when feeding raises.** On a fresh parser, no `feed` call of a cut
stream raises if and only if no byte of the stream meets the parser at the end
of a header block whose `Content-Length` is rejected. -/
theorem feedAll_ok_iff (cuts : List Bytes) :
    (∃ r, fresh.feedAll cuts = .ok r) ↔
      ∀ pre c post q out, cuts.flatten = pre ++ c :: post → fresh.feed pre = .ok (q, out) →
        ¬ q.EndsBadHeaders c := by
  have hdual : (∃ r, fresh.feedAll cuts = .ok r) ↔ ¬ ∃ e, fresh.feedAll cuts = .error e := by
    cases fresh.feedAll cuts <;> simp
  rw [hdual, feedAll_eq_feed, feed_error_iff]
  constructor
  · intro h pre c post q out hx hpre hbad
    exact h ⟨pre, c, post, q, out, hx, hpre, hbad⟩
  · rintro h ⟨pre, c, post, q, out, hx, hpre, hbad⟩
    exact h pre c post q out hx hpre hbad

/-- A length without a digit raises out of `feed`. -/
theorem feedAll_raises_on_text_length :
    fresh.feedAll [ascii "GET / HTTP/1.1\r\nContent-Length: abc\r\n\r\n"] =
        .error .invalidArgument ∧
      ¬ ∀ cuts : List Bytes, ∃ r, fresh.feedAll cuts = .ok r := by
  have h : fresh.feedAll [ascii "GET / HTTP/1.1\r\nContent-Length: abc\r\n\r\n"] =
      .error .invalidArgument := by rfl
  refine ⟨h, fun hall => ?_⟩
  obtain ⟨r, hr⟩ := hall [ascii "GET / HTTP/1.1\r\nContent-Length: abc\r\n\r\n"]
  rw [h] at hr
  cases hr

end HttpParser

end SolarDrive.Http
