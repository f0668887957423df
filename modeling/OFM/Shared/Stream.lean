import OFM.Lib.Block
import OFM.Shared.Conn

/-!
# Reading from a stream that ends

`conn_read` of `SDMBNConn.c` with the memory it stores to, on a stream of which only so many bytes come. The
loops have fuel, one unit for each call of `read`.
-/

namespace OFM.Shared
open OFM.Lib

/-- What `read` does from the end of the stream on: it returns 0, or an error. -/
inductive StreamEnd
  | closed
  | error
  deriving DecidableEq

structure Stream extends Conn where
  ending : StreamEnd

/-- `read`; what it yields while there are bytes is the kernel's choice. -/
def Stream.read (kernel : Kernel) (conn : Stream) (size : Nat) : Int × Bytes × Stream :=
  if conn.unread = [] then
    ((match conn.ending with | .closed => 0 | .error => -1), [], { conn with calls := conn.calls + 1 })
  else
    let result := kernel conn.calls size conn.unread.length
    (result, conn.unread.take result.toNat,
      { conn with unread := conn.unread.drop result.toNat, calls := conn.calls + 1 })

/-- How a loop has ended: by an error or with all it wants, what it has stored, and how much has come. -/
structure Fill where
  complete : Bool
  buf : Block UInt8
  count : Nat
  conn : Stream

/-- Either of the loops of `conn_read`: `read` stores behind what has come, until as much as `size` is there;
nothing while the loop has not ended. -/
def fill (kernel : Kernel) (size : Int) : Nat → Stream → Block UInt8 → Nat → Option Fill
  | fuel, conn, buf, count =>
      if (count : Int) < size then
        match fuel with
        | 0 => none
        | fuel + 1 =>
            let (result, bytes, conn) := conn.read kernel (size - count).toNat
            if result < 0 then some ⟨false, buf, count, conn⟩
            else fill kernel size fuel conn (buf.storeAll count bytes) (count + result.toNat)
      else some ⟨true, buf, count, conn⟩

inductive ReadExit
  | returned
  | null
  | aborted
  deriving DecidableEq

/-- What a call of `conn_read` comes to, with the two buffers it stores to. -/
structure ReadReturn where
  exit : ReadExit
  lenchars : Block UInt8
  buf : Option (Block UInt8)
  conn : Stream

/-- `conn_read`; nothing while it has not returned. Either assertion aborts the process. -/
def Stream.connRead (kernel : Kernel) (fuel : Nat) (conn : Stream) : Option ReadReturn :=
  match fill kernel lengthSize fuel conn (Block.alloc UInt8 lengthSize) 0 with
  | none => none
  | some ⟨false, lenchars, _, conn⟩ => some ⟨.null, lenchars, none, conn⟩
  | some ⟨true, lenchars, _, conn⟩ =>
      let strlen := ntohl lenchars.cells.reduceOption
      if ¬ strlen < sdmbnConnReadMax then some ⟨.aborted, lenchars, none, conn⟩
      else
        match Block.malloc UInt8 (strlen + 1) with
        | none => some ⟨.aborted, lenchars, none, conn⟩
        | some buf =>
            match fill kernel strlen fuel conn buf 0 with
            | none => none
            | some ⟨false, buf, _, conn⟩ => some ⟨.null, lenchars, some buf, conn⟩
            | some ⟨true, buf, readlen, conn⟩ => some ⟨.returned, lenchars, some (buf.store readlen 0), conn⟩

/-! ## One call of `read` -/

variable {kernel : Kernel} {fuel count capacity : Nat} {size : Int} {conn : Stream} {bytes bytes' : Bytes}

/-- The stream after bytes have been taken off it, whatever the calls. -/
def Stream.After (conn conn' : Stream) (k : Nat) : Prop :=
  conn'.unread = conn.unread.drop k ∧ conn'.ending = conn.ending

/-- On a stream that has not ended, `read` takes something off it and not too much. -/
theorem Stream.read_eq (hkernel : kernel.Reads) {want : Nat} (hwant : 0 < want) (hunread : conn.unread ≠ []) :
    ∃ (k : Nat) (conn' : Stream), 0 < k ∧ k ≤ want ∧ k ≤ conn.unread.length ∧ conn.After conn' k ∧
      conn.read kernel want = ((k : Int), conn.unread.take k, conn') := by
  have hpos := List.length_pos_iff.mpr hunread
  obtain ⟨h₀, h₁⟩ := hkernel conn.calls want conn.unread.length hwant hpos
  refine ⟨(kernel conn.calls want conn.unread.length).toNat,
    { conn with
        unread := conn.unread.drop (kernel conn.calls want conn.unread.length).toNat
        calls := conn.calls + 1 },
    by omega, by omega, by omega, ⟨rfl, rfl⟩, ?_⟩
  rw [Stream.read, if_neg hunread, Int.toNat_of_nonneg (by omega)]

/-! ## A loop -/

theorem fill_done (hcount : ¬ (count : Int) < size) (buf : Block UInt8) :
    fill kernel size fuel conn buf count = some ⟨true, buf, count, conn⟩ := by
  cases fuel <;> rw [fill, if_neg hcount]

/-- A round that reads something. -/
theorem fill_read (hkernel : kernel.Reads) (hcount : (bytes.length : Int) < size)
    (hunread : conn.unread ≠ []) :
    ∃ (k : Nat) (conn' : Stream), 0 < k ∧ (k : Int) ≤ size - bytes.length ∧ k ≤ conn.unread.length ∧
      conn.After conn' k ∧
      fill kernel size (fuel + 1) conn (Block.filled capacity bytes) bytes.length =
        fill kernel size fuel conn' (Block.filled capacity (bytes ++ conn.unread.take k))
          (bytes ++ conn.unread.take k).length := by
  obtain ⟨k, conn', hk, hksize, hkunread, hafter, hread⟩ :=
    Stream.read_eq hkernel (by omega : 0 < (size - bytes.length).toNat) hunread
  refine ⟨k, conn', hk, by omega, hkunread, hafter, ?_⟩
  rw [fill, if_pos hcount]
  simp only [hread, if_neg (by omega : ¬ (k : Int) < 0), Int.toNat_natCast, Block.filled_storeAll,
    List.length_append, List.length_take, Nat.min_eq_left hkunread]

/-- A round at the end of a stream that has been closed changes nothing. -/
theorem fill_closed (hcount : (count : Int) < size) (hunread : conn.unread = []) (hending : conn.ending = .closed)
    (buf : Block UInt8) : fill kernel size fuel conn buf count = none := by
  induction fuel generalizing conn with
  | zero => rw [fill, if_pos hcount]
  | succ fuel ih =>
      rw [fill, if_pos hcount]
      simp only [Stream.read, if_pos hunread, hending, if_neg (lt_irrefl (0 : Int)), Block.storeAll]
      exact @ih ⟨⟨conn.unread, conn.calls + 1⟩, .closed⟩ hunread rfl

theorem fill_error (hcount : (count : Int) < size) (hunread : conn.unread = []) (hending : conn.ending = .error)
    (buf : Block UInt8) :
    fill kernel size (fuel + 1) conn buf count =
      some ⟨false, buf, count, { conn with calls := conn.calls + 1 }⟩ := by
  rw [fill, if_pos hcount]
  simp [Stream.read, if_pos hunread, hending]

/-- A loop has ended with all it wants of what was there for it. -/
structure Fill.Has (out : Fill) (capacity want : Nat) (total : Bytes) (ending : StreamEnd) : Prop where
  complete : out.complete = true
  buf : out.buf = Block.filled capacity (total.take want)
  count : out.count = want
  unread : out.conn.unread = total.drop want
  ending : out.conn.ending = ending

theorem fill_has {total : Bytes} {out : Fill} (htotal : bytes ++ conn.unread = total)
    (hsize : bytes.length = size.toNat)
    (h : fill kernel size fuel conn (Block.filled capacity bytes) bytes.length = some out) :
    size.toNat ≤ total.length ∧ out.Has capacity size.toNat total conn.ending := by
  rw [fill_done (by omega)] at h
  cases h
  subst htotal
  refine ⟨?_, rfl, ?_, hsize, ?_, rfl⟩
  · rw [List.length_append]
    omega
  · rw [← hsize, List.take_left]
  · rw [← hsize, List.drop_left]

/-- A loop that ends has all it wants, or it has all there is and the stream ends with an error. -/
theorem fill_cases (hkernel : kernel.Reads) {total : Bytes} {out : Fill} (htotal : bytes ++ conn.unread = total)
    (hbytes : bytes.length ≤ size.toNat)
    (h : fill kernel size fuel conn (Block.filled capacity bytes) bytes.length = some out) :
    size.toNat ≤ total.length ∧ out.Has capacity size.toNat total conn.ending ∨
      total.length < size.toNat ∧ conn.ending = .error ∧ out.complete = false ∧
        out.buf = Block.filled capacity total := by
  induction fuel generalizing conn bytes with
  | zero =>
      by_cases hcount : (bytes.length : Int) < size
      · rw [fill, if_pos hcount] at h
        cases h
      · exact Or.inl (fill_has htotal (by omega) h)
  | succ fuel ih =>
      by_cases hcount : (bytes.length : Int) < size
      · by_cases hunread : conn.unread = []
        · rw [hunread, List.append_nil] at htotal
          subst htotal
          cases hending : conn.ending with
          | closed =>
              rw [fill_closed hcount hunread hending] at h
              cases h
          | error =>
              rw [fill_error hcount hunread hending] at h
              cases h
              exact Or.inr ⟨by omega, rfl, rfl, rfl⟩
        · obtain ⟨k, conn', hk, hksize, hkunread, ⟨hafter, hending⟩, hread⟩ :=
            @fill_read kernel fuel capacity _ _ _ hkernel hcount hunread
          have hlength : (bytes ++ conn.unread.take k).length = bytes.length + k := by
            simp [hkunread]
          rw [hread] at h
          rw [← hending]
          refine ih ?_ (by omega) h
          rw [hafter, List.append_assoc, List.take_append_drop, htotal]
      · exact Or.inl (fill_has htotal (by omega) h)

/-- With enough fuel a loop ends, if it can. -/
theorem fill_ends (hkernel : kernel.Reads) {total : Bytes} (htotal : bytes ++ conn.unread = total)
    (hbytes : bytes.length ≤ size.toNat) (hends : size.toNat ≤ total.length ∨ conn.ending = .error)
    (hfuel : conn.unread.length < fuel) :
    ∃ out, fill kernel size fuel conn (Block.filled capacity bytes) bytes.length = some out := by
  induction fuel generalizing conn bytes with
  | zero => exact absurd hfuel (Nat.not_lt_zero _)
  | succ fuel ih =>
      by_cases hcount : (bytes.length : Int) < size
      · by_cases hunread : conn.unread = []
        · have hend : conn.ending = .error := by
            refine hends.resolve_left fun henough => ?_
            rw [← htotal, hunread, List.append_nil] at henough
            omega
          exact ⟨_, fill_error hcount hunread hend _⟩
        · obtain ⟨k, conn', hk, hksize, hkunread, ⟨hafter, hending⟩, hread⟩ :=
            @fill_read kernel fuel capacity _ _ _ hkernel hcount hunread
          rw [hread]
          refine ih ?_ ?_ ?_ ?_
          · rw [hafter, List.append_assoc, List.take_append_drop, htotal]
          · rw [List.length_append, List.length_take]
            omega
          · rw [hending]
            exact hends
          · rw [hafter, List.length_drop]
            omega
      · exact ⟨_, fill_done hcount _⟩

/-! ## Where the stream does not end -/

theorem Stream.read_of_conn {want : Nat} {conn conn' : Conn} {ending : StreamEnd} {result : Int}
    (h : conn.read kernel want = some (result, bytes, conn')) :
    Stream.read kernel ⟨conn, ending⟩ want = (result, bytes, ⟨conn', ending⟩) := by
  rw [Conn.read] at h
  split at h
  · cases h
  · rename_i hunread
    cases h
    rw [Stream.read, if_neg hunread]

/-- A loop that does not reach the end of the stream does what it does on one without an end. -/
theorem fill_of_readLoop (hkernel : kernel.Reads) {want : Nat} {conn conn' : Conn} {ending : StreamEnd}
    {bytes : Bytes} (h : readLoop kernel want fuel conn bytes = some (some bytes', conn')) :
    fill kernel want fuel ⟨conn, ending⟩ (Block.filled capacity bytes) bytes.length =
      some ⟨true, Block.filled capacity bytes', bytes'.length, ⟨conn', ending⟩⟩ := by
  induction fuel generalizing conn bytes with
  | zero =>
      rw [readLoop] at h
      split at h
      · cases h
      · cases h
        exact fill_done (by omega) _
  | succ fuel ih =>
      rw [readLoop] at h
      split at h
      · rename_i hwant
        by_cases hunread : conn.unread = []
        · rw [Conn.read, if_pos hunread] at h
          cases h
        · obtain ⟨k, hk, hkwant, hkunread, hread⟩ := Conn.read_eq hkernel conn
            (by omega : 0 < want - bytes.length) hunread
          simp only [hread, if_neg (by omega : ¬ ((k : Int) < 0))] at h
          have hlength : (bytes ++ conn.unread.take k).length = bytes.length + k := by
            simp [hkunread]
          have hsize : ((want : Int) - bytes.length).toNat = want - bytes.length := by omega
          rw [fill, if_pos (by omega), hsize]
          simp only [Stream.read_of_conn hread, if_neg (by omega : ¬ ((k : Int) < 0)), Int.toNat_natCast,
            Block.filled_storeAll, ← hlength]
          exact ih h
      · cases h
        exact fill_done (by omega) _

theorem readLoop_zero {conn : Conn} : readLoop kernel 0 fuel conn [] = some (some [], conn) := by
  cases fuel <;> rw [readLoop, if_neg (by simp)]

/-- What a call returns on a stream without an end, it returns on one that ends later. -/
theorem Stream.connRead_of_connRead (hkernel : kernel.Reads) {conn conn' : Conn} {ending : StreamEnd}
    (h : OFM.Shared.connRead kernel fuel conn = some (.string bytes, conn')) :
    ∃ r, Stream.connRead kernel fuel ⟨conn, ending⟩ = some r ∧ r.exit = .returned ∧
      (∃ size, r.buf = some (Block.filled size bytes)) ∧ r.conn = ⟨conn', ending⟩ := by
  rw [OFM.Shared.connRead] at h
  split at h
  · cases h
  · cases h
  · rename_i lenchars conn₁ hlength
    have hsize := readLoop_length hkernel (Nat.zero_le _) hlength
    have hfill : fill kernel lengthSize fuel ⟨conn, ending⟩ (Block.alloc UInt8 lengthSize) 0 =
        some ⟨true, Block.filled lengthSize lenchars, lenchars.length, ⟨conn₁, ending⟩⟩ :=
      fill_of_readLoop hkernel hlength
    have hchars : (Block.filled lengthSize lenchars).cells.reduceOption = lenchars := by
      rw [Block.filled_reduceOption, ← hsize, List.take_length]
    dsimp only at h
    split at h
    · cases h
    · rename_i hmax
      split at h
      · cases h
      · rename_i hneg
        split at h
        · cases h
        · cases h
        · rename_i buf conn₂ hread
          cases h
          have hbody : fill kernel (ntohl lenchars) fuel ⟨conn₁, ending⟩
              (Block.alloc UInt8 (ntohl lenchars + 1).toNat) 0 =
              some ⟨true, Block.filled (ntohl lenchars + 1).toNat buf, buf.length, ⟨conn', ending⟩⟩ := by
            by_cases hnonneg : 0 ≤ ntohl lenchars
            · rw [← fill_of_readLoop hkernel hread, Int.toNat_of_nonneg hnonneg]
              rfl
            · rw [Int.toNat_of_nonpos (by omega), readLoop_zero] at hread
              cases hread
              exact fill_done (by rw [Nat.cast_zero]; omega) _
          simp only [Stream.connRead, hfill, hchars, if_neg hmax, Block.malloc, if_neg hneg, hbody]
          exact ⟨_, rfl, rfl, ⟨_, congrArg some Block.filled_store⟩, rfl⟩

end OFM.Shared
