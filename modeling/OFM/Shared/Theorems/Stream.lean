import OFM.Shared.Stream

/-!
# Streams that end

On which streams `conn_read` returns, keeps to its buffers, does not abort, and hands out whole frames only.
-/

namespace OFM.Shared
open OFM.Lib

variable {kernel : Kernel} {fuel : Nat} {conn : Stream} {r : ReadReturn}

/-- The number in front of what is to be read. -/
def Stream.announced (conn : Stream) : Int := ntohl (conn.unread.take lengthSize)

def Stream.body (conn : Stream) : Bytes := conn.unread.drop lengthSize

/-- What a call has come to, where it returns or aborts. -/
inductive ReadCase (conn : Stream) (r : ReadReturn) : Prop
  | noHeader (hshort : conn.unread.length < lengthSize) (hending : conn.ending = .error)
      (hexit : r.exit = .null) (hlenchars : r.lenchars = Block.filled lengthSize conn.unread)
      (hbuf : r.buf = none)
  | aborted (hheader : lengthSize ≤ conn.unread.length)
      (hannounced : conn.announced < -1 ∨ sdmbnConnReadMax ≤ conn.announced) (hexit : r.exit = .aborted)
  | noBody (hheader : lengthSize ≤ conn.unread.length)
      (hannounced : -1 ≤ conn.announced ∧ conn.announced < sdmbnConnReadMax)
      (hshort : conn.body.length < conn.announced.toNat) (hending : conn.ending = .error)
      (hexit : r.exit = .null)
      (hlenchars : r.lenchars = Block.filled lengthSize (conn.unread.take lengthSize))
      (hbuf : r.buf = some (Block.filled (conn.announced + 1).toNat conn.body))
  | returned (hheader : lengthSize ≤ conn.unread.length)
      (hannounced : -1 ≤ conn.announced ∧ conn.announced < sdmbnConnReadMax)
      (hbody : conn.announced.toNat ≤ conn.body.length) (hexit : r.exit = .returned)
      (hlenchars : r.lenchars = Block.filled lengthSize (conn.unread.take lengthSize))
      (hbuf : r.buf = some (Block.filled (conn.announced + 1).toNat
        (conn.body.take conn.announced.toNat ++ [0])))

/-- The loop from its start on. -/
theorem fill_start (hkernel : kernel.Reads) {size : Int} {capacity : Nat} {out : Fill}
    (h : fill kernel size fuel conn (Block.alloc UInt8 capacity) 0 = some out) :
    size.toNat ≤ conn.unread.length ∧ out.Has capacity size.toNat conn.unread conn.ending ∨
      conn.unread.length < size.toNat ∧ conn.ending = .error ∧ out.complete = false ∧
        out.buf = Block.filled capacity conn.unread :=
  fill_cases hkernel (List.nil_append conn.unread) (Nat.zero_le _) h

theorem fill_start_ends (hkernel : kernel.Reads) {size : Int} {capacity : Nat}
    (hends : size.toNat ≤ conn.unread.length ∨ conn.ending = .error) (hfuel : conn.unread.length < fuel) :
    ∃ out, fill kernel size fuel conn (Block.alloc UInt8 capacity) 0 = some out :=
  fill_ends hkernel (List.nil_append conn.unread) (Nat.zero_le _) hends hfuel

theorem connRead_cases (hkernel : kernel.Reads) (h : conn.connRead kernel fuel = some r) :
    ReadCase conn r := by
  rw [Stream.connRead] at h
  split at h
  · cases h
  · rename_i lenchars count conn' hfill
    cases h
    rcases fill_start hkernel hfill with ⟨-, hhas⟩ | ⟨hshort, hending, -, hlenchars⟩
    · cases hhas.complete
    · exact .noHeader hshort hending rfl hlenchars rfl
  · rename_i lenchars count conn' hfill
    rcases fill_start hkernel hfill with ⟨hheader, hhas⟩ | ⟨-, -, hcomplete, -⟩
    · have hlenchars : lenchars = Block.filled lengthSize (conn.unread.take lengthSize) := hhas.buf
      have hunread : conn'.unread = conn.body := hhas.unread
      have hnumber : ntohl lenchars.cells.reduceOption = conn.announced := by
        rw [hlenchars, Block.filled_reduceOption, List.take_take, Nat.min_self, Stream.announced]
      simp only [hnumber] at h
      by_cases hmax : conn.announced < sdmbnConnReadMax
      · rw [if_neg (not_not.mpr hmax)] at h
        by_cases hneg : conn.announced + 1 < 0
        · rw [Block.malloc, if_pos hneg] at h
          cases h
          exact .aborted hheader (Or.inl (by omega)) rfl
        · rw [Block.malloc, if_neg hneg] at h
          have hannounced : -1 ≤ conn.announced ∧ conn.announced < sdmbnConnReadMax := by omega
          dsimp only at h
          split at h
          · cases h
          · rename_i buf readlen conn'' hfill'
            cases h
            rcases fill_start hkernel hfill' with ⟨-, hhas'⟩ | ⟨hshort, hending, -, hbuf⟩
            · cases hhas'.complete
            · rw [hunread] at hshort hbuf
              exact .noBody hheader hannounced hshort (hhas.ending.symm.trans hending) rfl hlenchars
                (congrArg some hbuf)
          · rename_i buf readlen conn'' hfill'
            cases h
            rcases fill_start hkernel hfill' with ⟨hbody, hhas'⟩ | ⟨-, -, hcomplete, -⟩
            · rw [hunread] at hbody
              have hlength : readlen = (conn.body.take conn.announced.toNat).length := by
                rw [List.length_take, Nat.min_eq_left hbody]
                exact hhas'.count
              have hbuf : buf = Block.filled (conn.announced + 1).toNat
                  (conn.body.take conn.announced.toNat) := by
                rw [← hunread]
                exact hhas'.buf
              refine .returned hheader hannounced hbody rfl hlenchars ?_
              rw [hlength, hbuf, Block.filled_store]
            · cases hcomplete
      · rw [if_pos hmax] at h
        cases h
        exact .aborted hheader (Or.inr (by omega)) rfl
    · cases hcomplete

/-! ## Safe calls -/

/-- A call returns or hands out nothing, stores nothing outside its buffers, does not abort, and returns only
what has been announced and has come whole. -/
def ReadsSafely (kernel : Kernel) (conn : Stream) : Prop :=
  ∃ fuel r, conn.connRead kernel fuel = some r ∧ r.lenchars.InBounds ∧ (∀ buf ∈ r.buf, buf.InBounds) ∧
    r.exit ≠ .aborted ∧
    (r.exit = .returned → lengthSize + lengthOf (conn.unread.take lengthSize) ≤ conn.unread.length)

/-- A stream that is cut short ends with an error, and the number in front is a length that is served. -/
structure Stream.Served (conn : Stream) : Prop where
  header : conn.unread.length < lengthSize → conn.ending = .error
  announced : lengthSize ≤ conn.unread.length → 0 ≤ conn.announced ∧ conn.announced < sdmbnConnReadMax
  body : lengthSize ≤ conn.unread.length → conn.body.length < conn.announced.toNat → conn.ending = .error

/-- A stream on which nothing goes wrong is read to the end of its frame, or to its own. -/
theorem connRead_ends (hkernel : kernel.Reads) (hserved : conn.Served) :
    ∃ r, conn.connRead kernel (conn.unread.length + 1) = some r := by
  have hends : lengthSize ≤ conn.unread.length ∨ conn.ending = .error :=
    (Nat.lt_or_ge conn.unread.length lengthSize).elim (fun h => Or.inr (hserved.header h)) Or.inl
  have hlength : ∃ out, fill kernel lengthSize (conn.unread.length + 1) conn
      (Block.alloc UInt8 lengthSize) 0 = some out :=
    fill_start_ends hkernel hends (Nat.lt_succ_self _)
  obtain ⟨⟨complete, lenchars, count, conn'⟩, hfill⟩ := hlength
  rw [Stream.connRead, hfill]
  rcases fill_start hkernel hfill with ⟨hheader, hhas⟩ | ⟨-, -, hcomplete, -⟩
  · obtain rfl : complete = true := hhas.complete
    have hlenchars : lenchars = Block.filled lengthSize (conn.unread.take lengthSize) := hhas.buf
    have hunread : conn'.unread = conn.body := hhas.unread
    have hending : conn'.ending = conn.ending := hhas.ending
    have hnumber : ntohl lenchars.cells.reduceOption = conn.announced := by
      rw [hlenchars, Block.filled_reduceOption, List.take_take, Nat.min_self, Stream.announced]
    simp only [hnumber]
    split
    · exact ⟨_, rfl⟩
    · split
      · exact ⟨_, rfl⟩
      · rename_i buf halloc
        have hcan : conn.announced.toNat ≤ conn'.unread.length ∨ conn'.ending = .error := by
          rw [hunread, hending]
          exact (Nat.lt_or_ge conn.body.length conn.announced.toNat).elim
            (fun h => Or.inr (hserved.body hheader h)) Or.inl
        have hfuel : conn'.unread.length < conn.unread.length + 1 := by
          rw [hunread, Stream.body, List.length_drop]
          omega
        obtain rfl : Block.alloc UInt8 (conn.announced + 1).toNat = buf := by
          rw [Block.malloc] at halloc
          split at halloc
          · cases halloc
          · exact Option.some.inj halloc
        obtain ⟨⟨complete', buf', count', conn''⟩, hfill'⟩ := fill_start_ends hkernel hcan hfuel
        rw [hfill']
        cases complete' <;> exact ⟨_, rfl⟩
  · obtain rfl : complete = false := hcomplete
    exact ⟨_, rfl⟩

/-- A number that is not negative is its unsigned value. -/
theorem announced_toNat (h : 0 ≤ conn.announced) :
    conn.announced.toNat = lengthOf (conn.unread.take lengthSize) := by
  have hlt := lengthOf_lt (conn.unread.take lengthSize)
  have hlength : (conn.unread.take lengthSize).length ≤ 4 := List.length_take_le _ _
  have hpow := Nat.pow_le_pow_right (by decide : 0 < 2) (Nat.mul_le_mul_left 8 hlength)
  rw [Stream.announced, ntohl, BitVec.toInt_eq_toNat_cond, BitVec.toNat_ofNat] at h ⊢
  rw [Nat.mod_eq_of_lt (by omega)] at h ⊢
  split at h
  · rename_i hhalf
    rw [if_pos hhalf]
    rfl
  · omega

theorem readsSafely_iff (hkernel : kernel.Reads) (conn : Stream) : ReadsSafely kernel conn ↔ conn.Served := by
  constructor
  · rintro ⟨fuel, r, hcall, -, hbuf, hexit, -⟩
    cases connRead_cases hkernel hcall with
    | noHeader hshort hending =>
        exact ⟨fun _ => hending, fun h => absurd hshort (Nat.not_lt.mpr h),
          fun h => absurd hshort (Nat.not_lt.mpr h)⟩
    | aborted _ _ haborted => exact absurd haborted hexit
    | noBody hheader hannounced hshort hending =>
        exact ⟨fun _ => hending, fun _ => by omega, fun _ _ => hending⟩
    | returned hheader hannounced hbody _ _ hreturned =>
        have hbounds := hbuf _ hreturned
        rw [Block.filled_inBounds_iff, List.length_append, List.length_take, List.length_singleton] at hbounds
        exact ⟨fun h => absurd h (Nat.not_lt.mpr hheader), fun _ => by omega,
          fun _ h => absurd h (Nat.not_lt.mpr hbody)⟩
  · intro hserved
    obtain ⟨r, hcall⟩ := connRead_ends hkernel hserved
    refine ⟨_, r, hcall, ?_⟩
    cases connRead_cases hkernel hcall with
    | noHeader hshort hending hexit hlenchars hbuf =>
        rw [hlenchars, hbuf, hexit, Block.filled_inBounds_iff]
        exact ⟨hshort.le, by simp, by decide, nofun⟩
    | aborted hheader hannounced =>
        have := hserved.announced hheader
        omega
    | noBody hheader hannounced hshort hending hexit hlenchars hbuf =>
        rw [hlenchars, hbuf, hexit, Block.filled_inBounds_iff]
        refine ⟨List.length_take_le _ _, ?_, by decide, nofun⟩
        rintro _ ⟨⟩
        rw [Block.filled_inBounds_iff]
        omega
    | returned hheader hannounced hbody hexit hlenchars hbuf =>
        have hnonneg := (hserved.announced hheader).1
        rw [hlenchars, hbuf, hexit, Block.filled_inBounds_iff]
        refine ⟨List.length_take_le _ _, ?_, by decide, fun _ => ?_⟩
        · rintro _ ⟨⟩
          rw [Block.filled_inBounds_iff, List.length_append, List.length_take, List.length_singleton]
          omega
        · rw [← announced_toNat hnonneg]
          rw [Stream.body, List.length_drop] at hbody
          omega

/-- A kernel that yields all there is, as far as it is wanted. -/
def allThereIs : Kernel := fun _ size available => min size available

theorem allThereIs_reads : allThereIs.Reads := by
  intro calls size available hsize havailable
  rw [allThereIs]
  omega

/-- A frame with one byte. -/
theorem readsSafely_iff_letter : allThereIs.Reads ∧
    (ReadsSafely allThereIs ⟨⟨[0, 0, 0, 1, 65], 0⟩, .closed⟩ ↔
      Stream.Served ⟨⟨[0, 0, 0, 1, 65], 0⟩, .closed⟩) :=
  ⟨allThereIs_reads, readsSafely_iff allThereIs_reads _⟩

/-- A peer that closes at once leaves the first loop running. -/
theorem not_readsSafely_closed :
    ¬ ∀ (kernel : Kernel) (conn : Stream), kernel.Reads → ReadsSafely kernel conn := by
  intro h
  obtain ⟨fuel, r, hcall, -⟩ := h allThereIs ⟨⟨[], 0⟩, .closed⟩ allThereIs_reads
  rw [Stream.connRead, fill_closed (by decide) rfl rfl] at hcall
  cases hcall

end OFM.Shared
