import OFM.Lib.Framing

/-!
# Reading from a connection

`conn_read` of `SDMBNConn.c`. How many bytes a call of `read` yields is the kernel's choice; a call on a
stream that is empty blocks. The loops have fuel, one unit for each call of `read`.
-/

namespace OFM.Shared
open OFM.Lib

/-- The stream as far as it has not been read, and how often `read` has been called. -/
structure Conn where
  unread : Bytes
  calls : Nat

/-- The result of a call of `read`, from the calls before it, the size asked for and the bytes that are
there. A negative one is an error. -/
abbrev Kernel := (calls size available : Nat) → Int

/-- What is documented of `read`: on a stream that is not empty it yields something, and no more than it
is asked for. -/
def Kernel.Reads (kernel : Kernel) : Prop :=
  ∀ calls size available, 0 < size → 0 < available →
    0 < kernel calls size available ∧ kernel calls size available ≤ min size available

/-- `read`; nothing while it blocks. -/
def Conn.read (kernel : Kernel) (conn : Conn) (size : Nat) : Option (Int × Bytes × Conn) :=
  if conn.unread = [] then none
  else
    let result := kernel conn.calls size conn.unread.length
    some (result, conn.unread.take result.toNat, ⟨conn.unread.drop result.toNat, conn.calls + 1⟩)

/-- Either of the loops of `conn_read`, with what has been read so far: bytes are asked for until as many
as `size` are there. Without a value it ends with an error. -/
def readLoop (kernel : Kernel) (size : Nat) : Nat → Conn → Bytes → Option (Option Bytes × Conn)
  | fuel, conn, buf =>
      if buf.length < size then
        match fuel with
        | 0 => none
        | fuel + 1 =>
            match conn.read kernel (size - buf.length) with
            | none => none
            | some (result, bytes, conn) =>
                if result < 0 then some (none, conn) else readLoop kernel size fuel conn (buf ++ bytes)
      else some (some buf, conn)

def sdmbnConnReadMax : Int := 1024 * 1024 * 1024

/-- `ntohl`, as an `int`. -/
def ntohl (bytes : Bytes) : Int := (BitVec.ofNat 32 (lengthOf bytes)).toInt

/-- What a call of `conn_read` comes to: the string with the byte behind it, `NULL`, or an assertion
that fails. -/
inductive ReadOutcome
  | string (buf : Bytes)
  | null
  | abort
  deriving DecidableEq

/-- `conn_read`; nothing while it has not returned. -/
def connRead (kernel : Kernel) (fuel : Nat) (conn : Conn) : Option (ReadOutcome × Conn) :=
  match readLoop kernel lengthSize fuel conn [] with
  | none => none
  | some (none, conn) => some (.null, conn)
  | some (some lenchars, conn) =>
      let strlen := ntohl lenchars
      if ¬ strlen < sdmbnConnReadMax then some (.abort, conn)
      -- `malloc` has no memory for a size that is negative.
      else if strlen + 1 < 0 then some (.abort, conn)
      else
        match readLoop kernel strlen.toNat fuel conn [] with
        | none => none
        | some (none, conn) => some (.null, conn)
        | some (some buf, conn) => some (.string (buf ++ [0]), conn)

/-- As many calls in turn, as long as each of them returns a string. -/
def connReads (kernel : Kernel) (fuel : Nat) : Nat → Conn → Option (List Bytes × Conn)
  | 0, conn => some ([], conn)
  | n + 1, conn =>
      match connRead kernel fuel conn with
      | some (.string buf, conn) => (connReads kernel fuel n conn).map fun rest => (buf :: rest.1, rest.2)
      | _ => none

/-! ## The loops -/

variable {kernel : Kernel} {fuel : Nat}

/-- One call of `read` takes a first part of what is there, and something of it. -/
theorem Conn.read_eq (hkernel : kernel.Reads) (conn : Conn) {size : Nat} (hsize : 0 < size)
    (hunread : conn.unread ≠ []) :
    ∃ k, 0 < k ∧ k ≤ size ∧ k ≤ conn.unread.length ∧
      conn.read kernel size =
        some ((k : Int), conn.unread.take k, ⟨conn.unread.drop k, conn.calls + 1⟩) := by
  have hpos := List.length_pos_iff.mpr hunread
  obtain ⟨h₀, h₁⟩ := hkernel conn.calls size conn.unread.length hsize hpos
  refine ⟨(kernel conn.calls size conn.unread.length).toNat, by omega, by omega, by omega, ?_⟩
  rw [Conn.read, if_neg hunread, Int.toNat_of_nonneg (by omega)]

/-- A loop reads what is missing and no byte of what follows, however the bytes come. -/
theorem readLoop_eq (hkernel : kernel.Reads) {size : Nat} (buf body rest : Bytes) (calls : Nat)
    (hsize : (buf ++ body).length = size) (hfuel : body.length ≤ fuel) :
    ∃ calls', readLoop kernel size fuel ⟨body ++ rest, calls⟩ buf =
      some (some (buf ++ body), ⟨rest, calls'⟩) := by
  induction fuel generalizing buf body calls with
  | zero =>
      obtain rfl := List.length_eq_zero_iff.mp (Nat.le_zero.mp hfuel)
      rw [List.append_nil] at hsize ⊢
      rw [readLoop, if_neg (by omega)]
      exact ⟨calls, rfl⟩
  | succ fuel ih =>
      by_cases hbody : body = []
      · subst hbody
        rw [List.append_nil] at hsize ⊢
        rw [readLoop, if_neg (by omega)]
        exact ⟨calls, rfl⟩
      · have hpos := List.length_pos_iff.mpr hbody
        rw [List.length_append] at hsize
        obtain ⟨k, hk, hksize, -, hread⟩ := Conn.read_eq hkernel ⟨body ++ rest, calls⟩
          (by omega : 0 < size - buf.length) (by simp [hbody])
        have hkbody : k ≤ body.length := by omega
        rw [List.take_append_of_le_length hkbody, List.drop_append_of_le_length hkbody] at hread
        obtain ⟨calls', ih⟩ := ih (buf ++ body.take k) (body.drop k) (calls + 1)
          (by simp; omega) (by rw [List.length_drop]; omega)
        refine ⟨calls', ?_⟩
        rw [readLoop, if_pos (by omega), hread]
        simp only [if_neg (by omega : ¬ ((k : Int) < 0))]
        rw [ih, List.append_assoc, List.take_append_drop]

/-- What a loop returns has the size it was asked for. -/
theorem readLoop_length (hkernel : kernel.Reads) {size : Nat} {conn conn' : Conn} {buf buf' : Bytes}
    (hbuf : buf.length ≤ size) (h : readLoop kernel size fuel conn buf = some (some buf', conn')) :
    buf'.length = size := by
  induction fuel generalizing conn buf with
  | zero =>
      rw [readLoop] at h
      split at h
      · cases h
      · cases h
        omega
  | succ fuel ih =>
      rw [readLoop] at h
      split at h
      · by_cases hunread : conn.unread = []
        · rw [Conn.read, if_pos hunread] at h
          cases h
        · obtain ⟨k, hk, hksize, hkunread, hread⟩ := Conn.read_eq hkernel conn
            (by omega : 0 < size - buf.length) hunread
          simp only [hread, if_neg (by omega : ¬ ((k : Int) < 0))] at h
          refine ih ?_ h
          rw [List.length_append, List.length_take]
          omega
      · cases h
        omega

/-! ## Calls -/

theorem ntohl_lengthBytes {n : Nat} (h : n < 2 ^ 31) : ntohl (lengthBytes n) = n := by
  have hlt : n < 2 ^ 32 := by omega
  rw [ntohl, lengthOf_lengthBytes_of_lt hlt, BitVec.toInt_eq_toNat_of_lt] <;>
    rw [BitVec.toNat_ofNat, Nat.mod_eq_of_lt hlt]
  omega

/-- The length is read whole. -/
theorem readLoop_lengthBytes (hkernel : kernel.Reads) (n calls : Nat) (rest : Bytes)
    (hfuel : lengthSize ≤ fuel) : ∃ calls', readLoop kernel lengthSize fuel
      ⟨lengthBytes n ++ rest, calls⟩ [] = some (some (lengthBytes n), ⟨rest, calls'⟩) :=
  readLoop_eq hkernel [] (lengthBytes n) rest calls rfl hfuel

/-- A call returns the body of the frame that comes next. -/
theorem connRead_frame (hkernel : kernel.Reads) {body : Bytes} (rest : Bytes) (calls : Nat)
    (hbody : (body.length : Int) < sdmbnConnReadMax) (hfuel : (Lib.frame body).length ≤ fuel) :
    ∃ calls', connRead kernel fuel ⟨Lib.frame body ++ rest, calls⟩ =
      some (.string (body ++ [0]), ⟨rest, calls'⟩) := by
  rw [frame_length] at hfuel
  have hlt : body.length < 2 ^ 30 := by
    rw [sdmbnConnReadMax] at hbody
    omega
  obtain ⟨calls₁, hlength⟩ := readLoop_lengthBytes hkernel body.length calls (body ++ rest)
    (by omega : lengthSize ≤ fuel)
  obtain ⟨calls₂, hread⟩ := readLoop_eq hkernel [] body rest calls₁ rfl
    (by omega : body.length ≤ fuel)
  refine ⟨calls₂, ?_⟩
  rw [frame, List.append_assoc, connRead, hlength]
  simp only [ntohl_lengthBytes (by omega : body.length < 2 ^ 31)]
  rw [List.nil_append] at hread
  rw [if_neg (not_not.mpr hbody), if_neg (by omega), Int.toNat_natCast, hread]

/-- The length that is announced decides how long a string is. -/
theorem connRead_length (hkernel : kernel.Reads) {n calls : Nat} {rest buf : Bytes} {conn : Conn}
    (hfuel : lengthSize ≤ fuel)
    (h : connRead kernel fuel ⟨lengthBytes n ++ rest, calls⟩ = some (.string buf, conn)) :
    ntohl (lengthBytes n) < sdmbnConnReadMax ∧ buf.length = (ntohl (lengthBytes n)).toNat + 1 := by
  obtain ⟨calls', hlength⟩ := readLoop_lengthBytes hkernel n calls rest hfuel
  rw [connRead, hlength] at h
  dsimp only at h
  split at h
  · cases h
  · rename_i hmax
    refine ⟨not_not.mp hmax, ?_⟩
    split at h
    · cases h
    · split at h
      · cases h
      · cases h
      · rename_i buf' conn' hread
        cases h
        rw [List.length_append, readLoop_length hkernel (Nat.zero_le _) hread]
        rfl

end OFM.Shared
