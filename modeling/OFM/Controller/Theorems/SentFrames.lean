import OFM.Controller.SendMessage
import OFM.Shared.Conn

/-!
# Messages for a network function

The frame that the controller writes counts code units, and the library reads as many bytes. The library
gets the text of a message exactly when the text is ASCII, which it is when its string fields are but for
what Gson escapes.
-/

namespace OFM.Controller
open OFM.Lib (lengthSize lengthBytes frame frame_length)
open OFM.Shared (Kernel connRead connRead_frame connRead_length ntohl ntohl_lengthBytes
  sdmbnConnReadMax)

variable [Gson] [Charset] {msg : SentMessage}

/-- No index error, and the library reads the UTF-8 bytes of the text and leaves what follows. -/
def Framed (msg : SentMessage) : Prop :=
  ∃ bytes chars, sendMessage msg = .ok bytes ∧ Gson.toJson msg = utf16 chars ∧
    ∀ kernel : Kernel, kernel.Reads → ∀ rest calls fuel, bytes.length ≤ fuel →
      ∃ calls', connRead kernel fuel ⟨bytes ++ rest, calls⟩ =
        some (.string (utf8 chars ++ [0]), ⟨rest, calls'⟩)

/-- A text that ASCII has is read as it was written. -/
theorem framed_of_isAscii
    (hcharset : ∀ text, IsAscii text → Charset.getBytes text = text.map UInt16.toUInt8)
    (hascii : IsAscii (Gson.toJson msg)) (hmax : ((Gson.toJson msg).length : Int) < sdmbnConnReadMax) :
    Framed msg := by
  obtain ⟨chars, hchars⟩ := hascii.isUnicode
  have hbytes : Charset.getBytes (Gson.toJson msg) = utf8 chars := by
    rw [hcharset _ hascii, hchars, utf8_of_isAscii (hchars ▸ hascii)]
  have hlength : (Gson.toJson msg).length = (utf8 chars).length := by
    rw [hchars, (utf8_length_eq_iff chars).mpr (hchars ▸ hascii)]
  refine ⟨frame (utf8 chars), chars, ?_, hchars, fun kernel hkernel rest calls fuel hfuel => ?_⟩
  · rw [sendMessage_eq, hbytes, if_pos (Nat.le_of_eq hlength.symm), hlength]
    rfl
  · exact connRead_frame hkernel rest calls (by rwa [← hlength]) hfuel

/-- A kernel that yields all it can. -/
def eager : Kernel := fun _ size available => (min size available : Nat)

omit [Gson] [Charset] in
theorem eager_reads : eager.Reads := by
  intro calls size available hsize havailable
  simp only [eager]
  omega

/-- A text that is read as it was written has as many bytes as code units. -/
theorem Framed.isAscii (h : Framed msg) :
    IsAscii (Gson.toJson msg) ∧ ((Gson.toJson msg).length : Int) < sdmbnConnReadMax := by
  obtain ⟨bytes, chars, hsend, hchars, hread⟩ := h
  rw [sendMessage_eq] at hsend
  split at hsend
  · cases hsend
    obtain ⟨calls', hread⟩ := hread eager eager_reads [] 0 _ (Nat.le_refl _)
    rw [List.append_assoc] at hread
    have hsize : lengthSize ≤ (lengthBytes (Gson.toJson msg).length ++
        Charset.getBytes (Gson.toJson msg)).length := by
      rw [List.length_append]
      exact Nat.le_add_right _ _
    obtain ⟨hmax, hlength⟩ := connRead_length eager_reads hsize hread
    rw [List.length_append, List.length_singleton, Nat.add_right_cancel_iff] at hlength
    have hle := utf16_length_le chars
    rw [← hchars, hlength] at hle
    rw [sdmbnConnReadMax] at hmax ⊢
    have hn : ntohl (lengthBytes (Gson.toJson msg).length) = (Gson.toJson msg).length :=
      ntohl_lengthBytes (by omega)
    rw [hn, Int.toNat_natCast] at hlength
    refine ⟨?_, by omega⟩
    rw [hchars] at hlength ⊢
    exact (utf8_length_eq_iff chars).mp hlength
  · cases hsend

/-- The library gets a message exactly if its string fields are ASCII, but for what Gson escapes, and its
text is below the limit. -/
theorem framed_iff
    (hcharset : ∀ text, IsAscii text → Charset.getBytes text = text.map UInt16.toUInt8)
    (msg : SentMessage) : Framed msg ↔
      (∀ text ∈ msg.texts, ∀ unit ∈ text, unit < 0x80 ∨ Gson.escapes unit) ∧
        ((Gson.toJson msg).length : Int) < sdmbnConnReadMax := by
  rw [← Gson.isAscii_toJson]
  exact ⟨fun h => h.isAscii, fun h => framed_of_isAscii hcharset h.1 h.2⟩

omit [Gson] [Charset] in
/-- The text of the state is a letter, a character that HTML knows and the line separator, which Gson escapes. -/
theorem framed_iff_sample : letI := compactGson
    letI := utf8Written
    Framed (.putAllflows 1 1 (some [0x61, 0x3c, 0x2028])) := by
  let _ := compactGson
  let _ := utf8Written
  refine (framed_iff (fun text h => utf8Written_getBytes h)
    (.putAllflows 1 1 (some [0x61, 0x3c, 0x2028]))).mpr ⟨?_, ?_⟩
  · intro text htext unit hunit
    rw [List.mem_singleton.mp htext] at hunit
    have hunits : ∀ unit ∈ ([0x61, 0x3c, 0x2028] : JavaString), unit < 0x80 ∨ JsonPart.escapes unit :=
      List.forall_mem_cons.mpr ⟨Or.inl (by decide), List.forall_mem_cons.mpr
        ⟨Or.inl (by decide), List.forall_mem_singleton.mpr (Or.inr (by decide))⟩⟩
    exact hunits unit hunit
  · decide

omit [Gson] [Charset] in
/-- The text of the state is `é`, one code unit and two bytes: the buffer is too small. -/
theorem not_framed_sample : letI := compactGson
    letI := utf8Written
    sendMessage (.putAllflows 1 1 (some [0xe9])) = .error .indexOutOfBounds ∧
      ¬ Framed (.putAllflows 1 1 (some [0xe9])) := by
  let _ := compactGson
  let _ := utf8Written
  have hsend : sendMessage (.putAllflows 1 1 (some [0xe9])) = .error .indexOutOfBounds := by
    rw [sendMessage_eq, if_neg (by decide)]
  refine ⟨hsend, fun h => ?_⟩
  obtain ⟨bytes, chars, hbytes, -⟩ := h
  rw [hsend] at hbytes
  cases hbytes

end OFM.Controller
