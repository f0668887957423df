import OFM.Shared.Senders

/-!
# What is on the stream

What a step does, and how the stream of a connection stands to the frames of the messages sent on it.
-/

namespace OFM.Shared
open OFM.Lib

namespace Senders

variable {τ : Type} [DecidableEq τ] {s s' : Senders τ} {a : SenderAction τ} {conn : SdmbnConn}

/-- What a step can do. -/
theorem step_cases (h : step s a = some s') :
    (∃ thread conn buf, a = .call thread conn buf ∧ s.writing = none ∧
      s' = s.called thread conn buf) ∨
    (∃ w bytes stage result, a = .write w.thread result ∧ s.writing = some w ∧
      w.next = some (bytes, stage) ∧ Writes bytes.length result ∧
      s' = s.written w (bytes.take result) stage) ∨
    (∃ w, a = .unlock w.thread ∧ s.writing = some w ∧ w.stage = .bodyWritten ∧
      s' = { s with writing := none }) := by
  cases a with
  | call thread conn buf =>
      rw [step] at h
      split at h
      · rename_i hw
        cases h
        exact Or.inl ⟨thread, conn, buf, rfl, hw, rfl⟩
      · cases h
  | write thread result =>
      obtain ⟨w, hw, h⟩ := Option.bind_eq_some_iff.mp h
      obtain ⟨⟨bytes, stage⟩, hnext, h⟩ := Option.bind_eq_some_iff.mp h
      dsimp only at h
      split at h
      · rename_i hc
        cases h
        obtain ⟨rfl, hwrites⟩ := hc
        exact Or.inr (Or.inl ⟨w, bytes, stage, result, rfl, hw, hnext, hwrites, rfl⟩)
      · cases h
  | unlock thread =>
      obtain ⟨w, hw, h⟩ := Option.bind_eq_some_iff.mp h
      split at h
      · rename_i hc
        cases h
        obtain ⟨rfl, hstage⟩ := hc
        exact Or.inr (Or.inr ⟨w, rfl, hw, hstage, rfl⟩)
      · cases h

/-! ## What is still to be written -/

end Senders

/-- The part of the frame that the calls of `write` to come are given. -/
def Writing.rest {τ : Type} (w : Writing τ) : Bytes :=
  match w.stage with
  | .taken => Lib.frame w.buf
  | .lengthWritten => w.buf
  | .bodyWritten => []

theorem Writing.rest_eq {τ : Type} {w : Writing τ} {bytes : Bytes} {stage : Stage}
    (h : w.next = some (bytes, stage)) : w.rest = bytes ++ ({ w with stage } : Writing τ).rest := by
  obtain ⟨thread, conn, buf, stage'⟩ := w
  cases stage' <;> cases h
  · rfl
  · exact (List.append_nil _).symm

namespace Senders

variable {τ : Type} [DecidableEq τ] {s s' : Senders τ} {a : SenderAction τ} {conn : SdmbnConn}

def rest (s : Senders τ) (conn : SdmbnConn) : Bytes :=
  match s.writing with
  | some w => if w.conn = conn then w.rest else []
  | none => []

omit [DecidableEq τ] in
theorem rest_free (h : s.writing = none) (conn : SdmbnConn) : s.rest conn = [] := by
  rw [rest, h]

omit [DecidableEq τ] in
theorem rest_called (thread : τ) (c : SdmbnConn) (buf : Bytes) (conn : SdmbnConn) :
    (s.called thread c buf).rest conn = if c = conn then Lib.frame buf else [] := rfl

omit [DecidableEq τ] in
theorem rest_written (w : Writing τ) (bytes : Bytes) (stage : Stage) (conn : SdmbnConn) :
    (s.written w bytes stage).rest conn =
      if w.conn = conn then ({ w with stage } : Writing τ).rest else [] := rfl

/-- The bytes on the stream, with those still to be written, are the frames of the messages sent. -/
def Framed (s : Senders τ) (conn : SdmbnConn) : Prop :=
  s.stream conn ++ s.rest conn = frames (s.sent conn)

/-- Bytes of the frames have been lost. -/
def Short (s : Senders τ) (conn : SdmbnConn) : Prop :=
  (s.stream conn).length + (s.rest conn).length < framedSize (s.sent conn)

omit [DecidableEq τ] in
theorem framed_new (conn : SdmbnConn) : (new : Senders τ).Framed conn := rfl

/-- A step that writes all it is given keeps the frames whole. -/
theorem Framed.step (h : s.Framed conn) (hok : s.Whole a) (hs : step s a = some s') :
    s'.Framed conn := by
  rcases step_cases hs with ⟨thread, c, buf, rfl, hw, rfl⟩ |
    ⟨w, bytes, stage, result, rfl, hw, hnext, hwrites, rfl⟩ | ⟨w, rfl, hw, hstage, rfl⟩
  · rw [Framed, rest_free hw, List.append_nil] at h
    rw [Framed, rest_called]
    by_cases hc : c = conn
    · subst hc
      simp only [called, Function.update_self, if_pos, h, frames_append, frames_cons, frames_nil,
        List.append_nil]
    · simp only [called, Function.update_of_ne (Ne.symm hc), if_neg hc, h, List.append_nil]
  · have hresult : result = bytes.length := hok w hw _ hnext
    rw [Framed, rest, hw] at h
    rw [Framed, rest_written]
    by_cases hc : w.conn = conn
    · subst hc
      simp only [if_pos] at h ⊢
      rw [Writing.rest_eq hnext, ← List.append_assoc] at h
      simp only [written, Function.update_self]
      rw [hresult, List.take_length]
      exact h
    · simp only [if_neg hc] at h ⊢
      simpa only [written, Function.update_of_ne (Ne.symm hc)] using h
  · rw [Framed, rest, hw] at h
    rw [Framed, rest_free rfl]
    have hrest : (if w.conn = conn then w.rest else []) = [] := by
      rw [Writing.rest, hstage]
      exact ite_self _
    rw [← h]
    exact congrArg (s.stream conn ++ ·) hrest.symm

/-- Bytes that have been lost do not come back. -/
theorem Short.step (h : s.Short conn) (hs : step s a = some s') : s'.Short conn := by
  rcases step_cases hs with ⟨thread, c, buf, rfl, hw, rfl⟩ |
    ⟨w, bytes, stage, result, rfl, hw, hnext, hwrites, rfl⟩ | ⟨w, rfl, hw, hstage, rfl⟩
  · rw [Short, rest_free hw, List.length_nil] at h
    rw [Short, rest_called]
    by_cases hc : c = conn
    · subst hc
      simp only [called, Function.update_self, if_pos, framedSize_append, framedSize_cons,
        framedSize_nil, frame_length]
      omega
    · simpa only [called, Function.update_of_ne (Ne.symm hc), if_neg hc, List.length_nil] using h
  · rw [Short, rest, hw] at h
    rw [Short, rest_written]
    by_cases hc : w.conn = conn
    · subst hc
      simp only [if_pos, Writing.rest_eq hnext, List.length_append] at h
      simp only [written, Function.update_self, if_pos, List.length_append, List.length_take]
      omega
    · simp only [if_neg hc] at h ⊢
      simpa only [written, Function.update_of_ne (Ne.symm hc)] using h
  · rw [Short, rest, hw] at h
    rw [Short, rest_free rfl, List.length_nil]
    exact lt_of_le_of_lt (Nat.add_le_add_left (Nat.zero_le _) _) h

/-- A step that does not write all it is given loses bytes. -/
theorem Framed.short (h : ∀ conn, s.Framed conn) (hok : ¬ s.Whole a) (hs : Senders.step s a = some s') :
    ∃ conn, s'.Short conn := by
  rcases step_cases hs with ⟨thread, c, buf, rfl, hw, rfl⟩ |
    ⟨w, bytes, stage, result, rfl, hw, hnext, hwrites, rfl⟩ | ⟨w, rfl, hw, hstage, rfl⟩
  · exact absurd trivial hok
  · have hresult : result ≠ bytes.length := by
      rintro rfl
      refine hok fun w' hw' next hnext' => ?_
      obtain rfl := Option.some.inj (hw.symm.trans hw')
      obtain rfl := Option.some.inj (hnext.symm.trans hnext')
      rfl
    have hlt : result < bytes.length := lt_of_le_of_ne hwrites.1 hresult
    have hlen := congrArg List.length (h w.conn)
    rw [rest, hw] at hlen
    simp only [if_pos, Writing.rest_eq hnext, List.length_append, frames_length] at hlen
    refine ⟨w.conn, ?_⟩
    rw [Short, rest_written]
    simp only [written, Function.update_self, if_pos, List.length_append, List.length_take]
    omega
  · exact absurd trivial hok

/-! ## Runs -/

variable {as : List (SenderAction τ)}

theorem run_framed (hok : Machine.Along step Whole new as) (hr : Machine.run step new as = some s)
    (conn : SdmbnConn) : s.Framed conn :=
  Machine.run_invariant (I := fun s => s.Framed conn) (framed_new conn)
    (fun _ _ _ h hok hs => h.step hok hs) hok hr

theorem run_short (hok : ¬ Machine.Along step Whole new as) (hr : Machine.run step new as = some s) :
    ∃ conn, s.Short conn := by
  induction as using List.reverseRecOn generalizing s with
  | nil => exact absurd Machine.along_nil hok
  | append_singleton as a ih =>
      obtain ⟨t, ht, hs⟩ := Machine.run_snoc_eq_some.mp hr
      by_cases hpre : Machine.Along step Whole new as
      · refine Framed.short (run_framed hpre ht) (fun ha => hok ?_) hs
        refine Machine.along_snoc.mpr ⟨hpre, fun t' ht' => ?_⟩
        rwa [← Option.some.inj (ht.symm.trans ht')]
      · obtain ⟨conn, h⟩ := ih hpre ht
        exact ⟨conn, h.step hs⟩

end Senders

end OFM.Shared
