/-
  NetworkingFinal.Client.Listing

  The loop of `print_directory_content` (src/client/commands.py): the rows it adds
  to the printed table, from the bytes of a listing.

  - `printRows_iff`: what the loop makes of a listing, given a turn for every byte.
  - `printDirectoryContent_iff`: the rows are the blocks that were sent, exactly if
    all their names are ASCII.
-/
import NetworkingFinal.Ftp.Blocks

namespace NetworkingFinal
namespace Client

open Py Py.Struct Ftp

/-- The body of the loop: a row of the table, and where the next block starts. -/
def readBlock (data : Bytes) (offset : Nat) : Except Exn (Block × Nat) := do
  let (isDirectory, offset) ← unpackBlockType data offset
  if isDirectory then
    let ((directoryName, updatedAt), offset) ← unpackDirectoryBlock data offset
    return (.directory directoryName updatedAt, offset)
  else
    let ((fileName, updatedAt, fileSize), offset) ← unpackFileBlock data offset
    return (.file fileName updatedAt fileSize, offset)

/-- `while offset < len(data)`: the rows, and the offset at the end. -/
def printRows (data : Bytes) : Nat → Nat → Except Exn (List Block × Nat)
  | 0, _ => throw .diverges
  | fuel + 1, offset => do
      if offset < data.length then
        let (row, offset) ← readBlock data offset
        let (rows, offset) ← printRows data fuel offset
        return (row :: rows, offset)
      else
        return ([], offset)

/-- `print_directory_content` -/
def printDirectoryContent (data : Bytes) : Except Exn (List Block × Nat) :=
  printRows data (data.length + 1) 0

-- ============================================================================
-- What the loop reads
-- ============================================================================

/-- A row comes from a block of its kind, whose name comes first. -/
theorem readBlock_ok {data : Bytes} {offset offset' : Nat} {row : Block}
    (h : readBlock data offset = .ok (row, offset')) : ∃ isDirectory start next,
      unpackBlockType data offset = .ok (isDirectory, start) ∧
      unpackName data start = .ok (row.name, next) ∧ next ≤ offset' := by
  obtain ⟨⟨isDirectory, start⟩, htype, h⟩ := except_bind_ok_iff.mp h
  cases isDirectory with
  | true =>
      obtain ⟨⟨⟨name, updatedAt⟩, last⟩, hblock, h⟩ := except_bind_ok_iff.mp h
      cases h
      obtain ⟨next, hname, hle⟩ := unpackName_of_directory hblock
      exact ⟨true, start, next, htype, hname, hle⟩
  | false =>
      obtain ⟨⟨⟨name, updatedAt, size⟩, last⟩, hblock, h⟩ := except_bind_ok_iff.mp h
      cases h
      obtain ⟨next, hname, hle⟩ := unpackName_of_file hblock
      exact ⟨false, start, next, htype, hname, hle⟩

section Sent

variable {b : Block} {bs : Bytes}

theorem unpackBlockType_pack {code : Nat} {blockType : Bytes}
    (h : pack .native [.bool] [code] = .ok blockType) (pre post : Bytes) :
    unpackBlockType (pre ++ blockType ++ post) pre.length =
      .ok (Code.bool.norm code != 0, (pre ++ blockType).length) := by
  have hsize : blockType.length = calcsize .native [.bool] := pack_length h
  have hback := unpackFrom_pack h pre post rfl
  rw [unpackBlockType, hback, ← hsize, ← List.length_append]
  rfl

/-- A sent block with an ASCII name is read back. -/
theorem readBlock_pack (h : b.pack = .ok bs) (hascii : Ascii b.name) (pre post : Bytes) :
    readBlock (pre ++ bs ++ post) pre.length = .ok (b, (pre ++ bs).length) := by
  obtain ⟨blockType, len, info, hlen, rfl, hb⟩ := Block.pack_parts h
  have hsplit : pre ++ (blockType ++ (len ++ encode b.name) ++ info) ++ post =
      pre ++ blockType ++ (len ++ encode b.name ++ (info ++ post)) := by
    simp only [List.append_assoc]
  have hend : pre ++ (blockType ++ (len ++ encode b.name) ++ info) =
      pre ++ blockType ++ (len ++ encode b.name) ++ info := by
    simp only [List.append_assoc]
  rw [hsplit, hend, readBlock]
  cases b with
  | directory name updatedAt =>
      have hflag : (Code.bool.norm 1 != 0) = true := rfl
      have hblock := unpackDirectoryBlock_pack hlen hb.2 hascii (pre ++ blockType) post
      rw [unpackBlockType_pack hb.1, except_ok_bind]
      simp only [hflag, if_true]
      exact congrArg (· >>= _) hblock
  | file name updatedAt size =>
      have hflag : (Code.bool.norm 0 != 0) = false := rfl
      have hblock := unpackFileBlock_pack hlen hb.2 hascii (pre ++ blockType) post
      rw [unpackBlockType_pack hb.1, except_ok_bind]
      simp only [hflag, Bool.false_eq_true, if_false]
      exact congrArg (· >>= _) hblock

/-- Only a block with an ASCII name is read back. -/
theorem ascii_of_readBlock (h : b.pack = .ok bs) {pre post : Bytes} {offset : Nat}
    (hread : readBlock (pre ++ bs ++ post) pre.length = .ok (b, offset)) : Ascii b.name := by
  obtain ⟨isDirectory, start, next, htype, hname, -⟩ := readBlock_ok hread
  obtain ⟨blockType, len, info, hlen, rfl, hb⟩ := Block.pack_parts h
  have hsplit : pre ++ (blockType ++ (len ++ encode b.name) ++ info) ++ post =
      pre ++ blockType ++ (len ++ encode b.name ++ (info ++ post)) := by
    simp only [List.append_assoc]
  have hcode : ∃ code, pack .native [.bool] [code] = .ok blockType := by
    cases b with
    | directory name updatedAt => exact ⟨1, hb.1⟩
    | file name updatedAt size => exact ⟨0, hb.1⟩
  obtain ⟨code, hcode⟩ := hcode
  rw [hsplit, unpackBlockType_pack hcode, Except.ok.injEq, Prod.mk.injEq] at htype
  rw [hsplit, ← htype.2] at hname
  exact ascii_of_unpackName hlen hname

end Sent

/-- What was sent is what is printed, exactly if all names are ASCII. -/
theorem printRows_iff {blocks : List Block} {data : Bytes} (h : packBlocks blocks = .ok data)
    (pre : Bytes) {fuel : Nat} (hfuel : data.length < fuel) :
    printRows (pre ++ data) fuel pre.length = .ok (blocks, (pre ++ data).length) ↔
      ∀ b ∈ blocks, Ascii b.name := by
  induction blocks generalizing data pre fuel with
  | nil =>
      cases h
      obtain ⟨n, rfl⟩ := Nat.exists_eq_add_one_of_ne_zero (Nat.ne_of_gt hfuel)
      rw [List.append_nil, printRows, if_neg (Nat.lt_irrefl _)]
      exact ⟨fun _ => nofun, fun _ => rfl⟩
  | cons b blocks ih =>
      obtain ⟨head, tail, hhead, htail, rfl⟩ := packBlocks_cons_ok_iff.mp h
      have hpos := Block.length_pack_pos hhead
      obtain ⟨n, rfl⟩ := Nat.exists_eq_add_one_of_ne_zero (by omega : fuel ≠ 0)
      have hmore : pre.length < (pre ++ (head ++ tail)).length := by
        simp only [List.length_append]
        omega
      have hrest : tail.length < n := by
        simp only [List.length_append] at hfuel
        omega
      rw [printRows, if_pos hmore, List.forall_mem_cons, ← ih htail (pre ++ head) hrest,
        ← List.append_assoc]
      constructor
      · intro hprint
        obtain ⟨⟨row, offset⟩, hread, hprint⟩ := except_bind_ok_iff.mp hprint
        obtain ⟨⟨rows, last⟩, hrows, hprint⟩ := except_bind_ok_iff.mp hprint
        simp only [except_pure, Except.ok.injEq, Prod.mk.injEq, List.cons.injEq] at hprint
        obtain ⟨⟨rfl, rfl⟩, rfl⟩ := hprint
        have hascii := ascii_of_readBlock hhead hread
        rw [readBlock_pack hhead hascii, Except.ok.injEq, Prod.mk.injEq] at hread
        exact ⟨hascii, hread.2 ▸ hrows⟩
      · rintro ⟨hascii, hrows⟩
        rw [readBlock_pack hhead hascii, except_ok_bind]
        simp only [hrows, except_ok_bind, except_pure]

/-- `print_directory_content` prints a listing, and all of it, exactly if all names
    are ASCII. -/
theorem printDirectoryContent_iff {blocks : List Block} {data : Bytes}
    (h : packBlocks blocks = .ok data) :
    printDirectoryContent data = .ok (blocks, data.length) ↔ ∀ b ∈ blocks, Ascii b.name :=
  printRows_iff h [] (Nat.lt_succ_self _)

end Client
end NetworkingFinal
