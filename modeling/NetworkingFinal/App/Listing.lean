/-
  NetworkingFinal.App.Listing

  What a List request is answered with: `listing` says which entries of the tree it
  tells about, and in which order, and `loadDirectory` packs them.

  - `mem_listed_iff`: every entry of the directory, and with `recursive` every entry
    below it.
  - `loadDirectory_ok_iff`: the bytes of a listing.
-/
import NetworkingFinal.App.Handlers
import NetworkingFinal.Py.Archive

namespace NetworkingFinal
namespace App

open Py Py.Prog Py.Os Py.PosixPath Py.Struct Ftp

variable {env : Env} {recursive : Bool} {t : FileTree} {q : Path} {name : Str}

-- ============================================================================
-- The entries of a directory
-- ============================================================================

/-- The names of the directories in a directory, in sorted order. -/
def directories (t : FileTree) (q : Path) : List Str :=
  sortNames ((t.listdir q).filter fun name => t.isDir (q ++ [name]))

/-- The names of the files in a directory, in sorted order. -/
def files (t : FileTree) (q : Path) : List Str :=
  sortNames ((t.listdir q).filter fun name => t.isFile (q ++ [name]))

theorem mem_directories_iff : name ∈ directories t q ↔ t.isDir (q ++ [name]) = true := by
  rw [directories, sortNames, (List.perm_insertionSort _ _).mem_iff, List.mem_filter,
    Archive.mem_listdir_iff]
  exact ⟨fun h => h.2, fun h => ⟨FileTree.get?_ne_none_of_isDir h, h⟩⟩

theorem mem_files_iff : name ∈ files t q ↔ t.isFile (q ++ [name]) = true := by
  rw [files, sortNames, (List.perm_insertionSort _ _).mem_iff, List.mem_filter,
    Archive.mem_listdir_iff]
  exact ⟨fun h => h.2, fun h => ⟨FileTree.get?_ne_none_of_isFile h, h⟩⟩

/-- How many entries lie below a path. -/
def entriesBelow (t : FileTree) (q : Path) : Nat :=
  (t.entries.keys.filter fun p => decide (q <+: p ∧ q ≠ p)).length

/-- Fewer entries lie below an entry than below its directory. -/
theorem entriesBelow_lt (h : t.get? (q ++ [name]) ≠ none) :
    entriesBelow t (q ++ [name]) < entriesBelow t q := by
  have hne : q ≠ q ++ [name] := by simp
  have hmem : q ++ [name] ∈ t.entries.keys := by
    rw [FileTree.get?_of_ne t (by simp)] at h
    exact (Dict.mem_keys_iff _ _).mpr (Option.ne_none_iff_exists'.mp h)
  have hsub : ∀ p, (q ++ [name] <+: p ∧ q ++ [name] ≠ p) → q <+: p ∧ q ≠ p := by
    rintro p ⟨hpre, -⟩
    refine ⟨(List.prefix_append _ _).trans hpre, ?_⟩
    rintro rfl
    exact absurd hpre.length_le (by simp)
  have hfilter : (t.entries.keys.filter fun p => decide (q ++ [name] <+: p ∧ q ++ [name] ≠ p)) =
      (t.entries.keys.filter fun p => decide (q <+: p ∧ q ≠ p)).filter
        fun p => decide (q ++ [name] <+: p ∧ q ++ [name] ≠ p) := by
    rw [List.filter_filter]
    refine List.filter_congr fun p _ => ?_
    by_cases hp : q ++ [name] <+: p ∧ q ++ [name] ≠ p
    · simp [hp, hsub p hp]
    · simp [hp]
  rw [entriesBelow, hfilter, entriesBelow, List.length_filter_lt_length_iff_exists]
  refine ⟨q ++ [name], List.mem_filter.mpr ⟨hmem, ?_⟩, by simp⟩
  exact decide_eq_true ⟨List.prefix_append _ _, hne⟩

/-- The paths a listing tells about, from the directory: at each level the directories
    in sorted order, each followed by its own listing when `recursive`, then the files
    in sorted order. -/
def listed (t : FileTree) (recursive : Bool) (q : Path) : List Path :=
  ((directories t q).attach.flatMap fun ⟨name, _⟩ =>
    [name] :: if recursive then (listed t recursive (q ++ [name])).map (name :: ·) else []) ++
  (files t q).map fun name => [name]
termination_by entriesBelow t q
decreasing_by
  next hname =>
    exact entriesBelow_lt (FileTree.get?_ne_none_of_isDir (mem_directories_iff.mp hname))

theorem listed_eq (t : FileTree) (recursive : Bool) (q : Path) :
    listed t recursive q =
      ((directories t q).flatMap fun name => [name] ::
        if recursive then (listed t recursive (q ++ [name])).map (name :: ·) else []) ++
      (files t q).map fun name => [name] := by
  rw [listed]
  simp only [List.flatMap_subtype, List.unattach_attach]

/-- Induction along the directories below a path. -/
theorem entriesBelow_induction {P : Path → Prop}
    (h : ∀ q, (∀ name, t.isDir (q ++ [name]) = true → P (q ++ [name])) → P q) (q : Path) :
    P q := by
  induction hn : entriesBelow t q using Nat.strongRecOn generalizing q with
  | ind n ih =>
      refine h q fun name hname => ih _ ?_ _ rfl
      rw [← hn]
      exact entriesBelow_lt (FileTree.get?_ne_none_of_isDir hname)

/-- A listing tells about every entry of the directory, and with `recursive` about every
    entry below it. -/
theorem mem_listed_iff {rel : Path} : rel ∈ listed t recursive q ↔
    rel ≠ [] ∧ (recursive = false → rel.length = 1) ∧ t.get? (q ++ rel) ≠ none := by
  induction q using entriesBelow_induction (t := t) generalizing rel with
  | h q ih =>
      rw [listed_eq, List.mem_append, List.mem_flatMap, List.mem_map]
      constructor
      · rintro (⟨name, hname, hrel⟩ | ⟨name, hname, rfl⟩)
        · have hdir := mem_directories_iff.mp hname
          rcases List.mem_cons.mp hrel with rfl | hrel
          · exact ⟨List.cons_ne_nil _ _, fun _ => rfl, FileTree.get?_ne_none_of_isDir hdir⟩
          · split at hrel
            · next hrec =>
                obtain ⟨rel', hrel', rfl⟩ := List.mem_map.mp hrel
                obtain ⟨-, -, hthere⟩ := (ih name hdir).mp hrel'
                rw [List.append_assoc] at hthere
                refine ⟨List.cons_ne_nil _ _, fun hflat => ?_, hthere⟩
                rw [hrec] at hflat
                cases hflat
            · cases hrel
        · exact ⟨List.cons_ne_nil _ _, fun _ => rfl,
            FileTree.get?_ne_none_of_isFile (mem_files_iff.mp hname)⟩
      · rintro ⟨hne, hflat, hthere⟩
        obtain ⟨name, rel', rfl⟩ := List.exists_cons_of_ne_nil hne
        by_cases hnil : rel' = []
        · subst hnil
          cases hentry : t.get? (q ++ [name]) with
          | none => exact absurd hentry hthere
          | some entry =>
              cases entry with
              | file data updatedAt =>
                  exact Or.inr ⟨name, mem_files_iff.mpr
                    (FileTree.isFile_iff.mpr ⟨_, _, hentry⟩), rfl⟩
              | dir updatedAt =>
                  exact Or.inl ⟨name, mem_directories_iff.mpr (FileTree.isDir_iff.mpr ⟨_, hentry⟩),
                    List.mem_cons_self⟩
        · -- below the directory `name`
          have hrec : recursive = true := by
            rw [← Bool.not_eq_false]
            intro hfalse
            have hone := hflat hfalse
            rw [List.length_cons, Nat.add_eq_right, List.length_eq_zero_iff] at hone
            exact hnil hone
          have hsplit : q ++ name :: rel' = q ++ [name] ++ rel' := by simp
          rw [hsplit] at hthere
          have hdir : t.isDir (q ++ [name]) = true :=
            FileTree.isDir_of_prefix (List.prefix_append _ _) (by simpa using hnil) hthere
          refine Or.inl ⟨name, mem_directories_iff.mpr hdir, List.mem_cons_of_mem _ ?_⟩
          rw [if_pos hrec]
          refine List.mem_map_of_mem ((ih name hdir).mpr ⟨hnil, fun hfalse => ?_, hthere⟩)
          rw [hrec] at hfalse
          cases hfalse

-- ============================================================================
-- Blocks
-- ============================================================================

/-- The block that tells about an entry. -/
def entryBlock (name : Str) : Entry → Block
  | .dir updatedAt => .directory name updatedAt
  | .file data updatedAt => .file name updatedAt data.length

/-- The blocks about the entries at these paths from `q`, with their names behind
    `parent`. -/
def blocksFor (t : FileTree) (q : Path) (parent : Str) (rels : List Path) : List Block :=
  rels.filterMap fun rel => (t.get? (q ++ rel)).map (entryBlock (parent ++ joinSep rel))

/-- The listing of a directory. -/
def listing (t : FileTree) (recursive : Bool) (q : Path) : List Block :=
  blocksFor t q [] (listed t recursive q)

theorem blocksFor_append (t : FileTree) (q : Path) (parent : Str) (xs ys : List Path) :
    blocksFor t q parent (xs ++ ys) = blocksFor t q parent xs ++ blocksFor t q parent ys :=
  List.filterMap_append

/-- The block of a directory, and those of what is listed below it. -/
theorem blocksFor_directory {updatedAt : UInt64} (h : t.get? (q ++ [name]) = some (.dir updatedAt))
    (parent : Str) (rels : List Path) (hrels : ∀ rel ∈ rels, rel ≠ []) :
    blocksFor t q parent ([name] :: rels.map (name :: ·)) =
      .directory (parent ++ name) updatedAt ::
        blocksFor t (q ++ [name]) (parent ++ name ++ ['/']) rels := by
  rw [blocksFor, List.filterMap_cons_some (b := .directory (parent ++ name) updatedAt)
    (by rw [h, joinSep_singleton]; rfl), List.filterMap_map, blocksFor]
  congr 1
  refine List.filterMap_congr fun rel hrel => ?_
  obtain ⟨c, cs, rfl⟩ := List.exists_cons_of_ne_nil (hrels rel hrel)
  simp [joinSep_cons_cons]

/-- The block of a file. -/
theorem blocksFor_file {data : Bytes} {updatedAt : UInt64}
    (h : t.get? (q ++ [name]) = some (.file data updatedAt)) (parent : Str) :
    blocksFor t q parent [[name]] = [.file (parent ++ name) updatedAt data.length] := by
  simp [blocksFor, h, entryBlock]

-- ============================================================================
-- load_directory
-- ============================================================================

theorem resolve_entry {cwd directoryPath : Str} (h : resolve cwd t directoryPath = .ok q)
    (hname : Plain name) : resolve cwd t (directoryPath ++ ['/'] ++ name) = .ok (q ++ [name]) := by
  rw [resolve] at h ⊢
  split at h
  · cases h
  · next hne =>
      obtain ⟨c, cs, rfl⟩ := List.exists_cons_of_ne_nil hne
      have habs : isabs (c :: cs ++ ['/'] ++ name) = isabs (c :: cs) := rfl
      have hcomps : comps (c :: cs ++ ['/'] ++ name) = comps (c :: cs) ++ [name] := by
        rw [List.append_assoc, List.singleton_append, comps_append_slash,
          comps_of_notMem hname.2.1 hname.1]
      rw [if_neg (List.append_ne_nil_of_left_ne_nil (List.append_ne_nil_of_left_ne_nil hne _) _),
        habs, hcomps, walkFrom_append, h]
      exact walkFrom_of_plain t q fun d hd => by rwa [List.mem_singleton.mp hd]

/-- The parts of a listing are packed one after the other. -/
theorem packBlocks_flatMap_ok_iff {α : Type} {f : α → List Block} {xs : List α} {data : Bytes} :
    packBlocks (xs.flatMap f) = .ok data ↔
      ∃ parts, List.Forall₂ (fun x part => packBlocks (f x) = .ok part) xs parts ∧
        data = parts.flatten := by
  induction xs generalizing data with
  | nil =>
      constructor
      · intro h
        cases h
        exact ⟨[], .nil, rfl⟩
      · rintro ⟨parts, hparts, rfl⟩
        cases hparts
        rfl
  | cons x xs ih =>
      rw [List.flatMap_cons, packBlocks_append_ok_iff]
      constructor
      · rintro ⟨head, tail, hhead, htail, rfl⟩
        obtain ⟨parts, hparts, rfl⟩ := ih.mp htail
        exact ⟨head :: parts, .cons hhead hparts, rfl⟩
      · rintro ⟨parts, hparts, rfl⟩
        cases hparts with
        | cons hhead hparts => exact ⟨_, _, hhead, ih.mpr ⟨_, hparts, rfl⟩, rfl⟩

/-- What the loop over the directories collects for one of them. -/
def directoryPart (s : FileTree) (recursive : Bool) (q : Path) (parent name : Str) : List Block :=
  blocksFor s q parent ([name] ::
    if recursive then (listed s recursive (q ++ [name])).map (name :: ·) else [])

theorem directoryPart_eq {s : FileTree} {u : UInt64}
    (h : s.get? (q ++ [name]) = some (.dir u)) (parent : Str) :
    directoryPart s recursive q parent name = .directory (parent ++ name) u ::
      if recursive then
        blocksFor s (q ++ [name]) (parent ++ name ++ ['/']) (listed s recursive (q ++ [name]))
      else [] := by
  rw [directoryPart]
  split
  · exact blocksFor_directory h parent _ fun rel hrel => (mem_listed_iff.mp hrel).1
  · exact blocksFor_directory h parent [] nofun

theorem blocksFor_listed (s : FileTree) (recursive : Bool) (q : Path) (parent : Str) :
    blocksFor s q parent (listed s recursive q) =
      (directories s q).flatMap (directoryPart s recursive q parent) ++
        (files s q).flatMap fun name => blocksFor s q parent [[name]] := by
  have hdirs : ∀ (f : Str → List Path) (names : List Str),
      blocksFor s q parent (names.flatMap f) =
      names.flatMap fun name => blocksFor s q parent (f name) :=
    fun f names => List.filterMap_flatMap
  rw [listed_eq, blocksFor_append, hdirs, List.map_eq_flatMap, hdirs]
  rfl

section Turns

variable {directoryPath parent : Str} {s t : FileTree} {part : Bytes}

theorem resolve_listed {cwd : Str} (hq : resolve cwd s directoryPath = .ok q)
    (hname : name ∈ s.listdir q) :
    resolve cwd s (directoryPath ++ ['/'] ++ name) = .ok (q ++ [name]) :=
  resolve_entry hq (FileTree.plain_of_mem_listdir name hname)

/-- The turn of the loop over the directories for one of them, where `load` is its own
    listing. -/
theorem directoryTurn_ok_iff {load : Prog FileTree Bytes}
    (hq : resolve env.cwd s directoryPath = .ok q) (hname : name ∈ directories s q)
    (hload : ∀ {data u}, load s = .ok data u ↔
      u = s ∧ packBlocks (blocksFor s (q ++ [name]) (parent ++ name ++ ['/'])
        (listed s recursive (q ++ [name]))) = .ok data) :
    (do
      let updatedAt ← getmtime env.cwd (directoryPath ++ ['/'] ++ name)
      let block ← reads fun _ => packDirectoryBlock (parent ++ name) updatedAt
      if recursive then
        let content ← load
        return block ++ content
      else
        return block : Prog FileTree Bytes) s = .ok part t ↔
      t = s ∧ packBlocks (directoryPart s recursive q parent name) = .ok part := by
  have hisDir := mem_directories_iff.mp hname
  obtain ⟨u, hu⟩ := FileTree.isDir_iff.mp hisDir
  have hthere := resolve_listed hq
    (Archive.mem_listdir_iff.mpr (FileTree.get?_ne_none_of_isDir hisDir))
  have htime : getmtime env.cwd (directoryPath ++ ['/'] ++ name) s = .ok u s :=
    fetch_ok_iff.mpr ⟨_, hthere, by rw [hu], rfl⟩
  rw [bind_of_ok htime, directoryPart_eq hu, packBlocks_cons_ok_iff]
  constructor
  · intro h
    obtain ⟨block, t₁, hread, hrest⟩ := bind_ok_iff.mp h
    obtain ⟨hblock, ht₁⟩ := reads_ok_iff.mp hread
    rw [ht₁] at hrest
    split at hrest
    · next hrec =>
        obtain ⟨content, t₂, hcontent, hend⟩ := bind_ok_iff.mp hrest
        obtain ⟨ht₂, hpacked⟩ := hload.mp hcontent
        cases hend
        rw [if_pos hrec]
        exact ⟨ht₂, block, content, hblock, hpacked, rfl⟩
    · next hrec =>
        cases hrest
        rw [if_neg hrec]
        exact ⟨rfl, part, [], hblock, rfl, (List.append_nil part).symm⟩
  · rintro ⟨rfl, block, content, hblock, hpacked, rfl⟩
    refine bind_ok_iff.mpr ⟨block, t, reads_ok_iff.mpr ⟨hblock, rfl⟩, ?_⟩
    split at hpacked
    · next hrec =>
        rw [if_pos hrec]
        exact bind_ok_iff.mpr ⟨content, t, hload.mpr ⟨rfl, hpacked⟩, rfl⟩
    · next hrec =>
        rw [if_neg hrec]
        cases hpacked
        rw [List.append_nil]
        rfl

/-- The turn of the loop over the files for one of them. -/
theorem fileTurn_ok_iff (hq : resolve env.cwd s directoryPath = .ok q)
    (hname : name ∈ files s q) :
    (do
      let updatedAt ← getmtime env.cwd (directoryPath ++ ['/'] ++ name)
      let size ← fileSize env.cwd (directoryPath ++ ['/'] ++ name)
      reads fun _ => packFileBlock (parent ++ name) updatedAt size) s = .ok part t ↔
      t = s ∧ packBlocks (blocksFor s q parent [[name]]) = .ok part := by
  have hisFile := mem_files_iff.mp hname
  obtain ⟨content, u, hu⟩ := FileTree.isFile_iff.mp hisFile
  have hthere := resolve_listed hq
    (Archive.mem_listdir_iff.mpr (FileTree.get?_ne_none_of_isFile hisFile))
  have htime : getmtime env.cwd (directoryPath ++ ['/'] ++ name) s = .ok u s :=
    fetch_ok_iff.mpr ⟨_, hthere, by rw [hu], rfl⟩
  have hsize : fileSize env.cwd (directoryPath ++ ['/'] ++ name) s = .ok content.length s :=
    fetch_ok_iff.mpr ⟨_, hthere, by rw [hu], rfl⟩
  rw [bind_of_ok htime, bind_of_ok hsize, reads_ok_iff, blocksFor_file hu,
    packBlocks_cons_ok_iff, and_comm]
  refine and_congr_right fun _ => ⟨fun h => ⟨part, [], h, rfl, (List.append_nil part).symm⟩, ?_⟩
  rintro ⟨head, tail, hhead, htail, rfl⟩
  cases htail
  rw [List.append_nil]
  exact hhead

end Turns

/-- `load_directory` returns the packed blocks, when they can be packed. -/
theorem loadDirectory_ok_iff {fuel : Nat} {directoryPath parent : Str} {s s' : FileTree}
    {data : Bytes} (hq : resolve env.cwd s directoryPath = .ok q) (hdir : s.isDir q = true)
    (hfuel : entriesBelow s q < fuel) :
    loadDirectory env fuel directoryPath parent recursive s = .ok data s' ↔
      s' = s ∧ packBlocks (blocksFor s q parent (listed s recursive q)) = .ok data := by
  induction fuel generalizing directoryPath parent q data s' with
  | zero => exact absurd hfuel (Nat.not_lt_zero _)
  | succ fuel ih =>
      have hlist : listdir env.cwd directoryPath s = .ok (s.listdir q) s :=
        fetch_ok_iff.mpr ⟨q, hq, if_pos hdir, rfl⟩
      have hdirs : select (fun name => isdir env.cwd (directoryPath ++ ['/'] ++ name))
          (s.listdir q) s = .ok ((s.listdir q).filter fun name => s.isDir (q ++ [name])) s := by
        refine select_of_tests fun name hname => ?_
        simp only [isdir, query, reads, resolve_listed hq hname]
      have hfiles : select (fun name => isfile env.cwd (directoryPath ++ ['/'] ++ name))
          (s.listdir q) s = .ok ((s.listdir q).filter fun name => s.isFile (q ++ [name])) s := by
        refine select_of_tests fun name hname => ?_
        simp only [isfile, query, reads, resolve_listed hq hname]
      rw [loadDirectory, bind_of_ok hlist, bind_of_ok hdirs, bind_of_ok hfiles, blocksFor_listed,
        packBlocks_append_ok_iff]
      have hload : ∀ name ∈ directories s q, ∀ {data t}, loadDirectory env fuel
          (directoryPath ++ ['/'] ++ name) (parent ++ name ++ ['/']) recursive s = .ok data t ↔
          t = s ∧ packBlocks (blocksFor s (q ++ [name]) (parent ++ name ++ ['/'])
            (listed s recursive (q ++ [name]))) = .ok data := by
        intro name hname data t
        have hisDir := mem_directories_iff.mp hname
        have hthere := FileTree.get?_ne_none_of_isDir hisDir
        have hbelow := entriesBelow_lt hthere
        exact ih (resolve_listed hq (Archive.mem_listdir_iff.mpr hthere)) hisDir (by omega)
      constructor
      · intro h
        obtain ⟨directoryBlocks, t₁, hfirst, hrest⟩ := bind_ok_iff.mp h
        obtain ⟨fileBlocks, t₂, hsecond, hend⟩ := bind_ok_iff.mp hrest
        cases hend
        obtain ⟨rfl, hblocks⟩ := (collect_ok_iff fun name hname part t =>
          directoryTurn_ok_iff hq hname (hload name hname)).mp hfirst
        obtain ⟨rfl, hfileBlocks⟩ := (collect_ok_iff fun name hname part t =>
          fileTurn_ok_iff hq hname).mp hsecond
        exact ⟨rfl, _, _, packBlocks_flatMap_ok_iff.mpr ⟨_, hblocks, rfl⟩,
          packBlocks_flatMap_ok_iff.mpr ⟨_, hfileBlocks, rfl⟩, rfl⟩
      · rintro ⟨rfl, head, tail, hhead, htail, rfl⟩
        obtain ⟨directoryBlocks, hblocks, rfl⟩ := packBlocks_flatMap_ok_iff.mp hhead
        obtain ⟨fileBlocks, hfileBlocks, rfl⟩ := packBlocks_flatMap_ok_iff.mp htail
        have hfirst := (collect_ok_iff fun name hname part t =>
          directoryTurn_ok_iff hq hname (hload name hname)).mpr ⟨rfl, hblocks⟩
        have hsecond := (collect_ok_iff fun name hname part t =>
          fileTurn_ok_iff hq hname).mpr ⟨rfl, hfileBlocks⟩
        exact bind_ok_iff.mpr ⟨_, _, hfirst, bind_ok_iff.mpr ⟨_, _, hsecond, rfl⟩⟩

/-- The fuel a List request starts with is enough. -/
theorem entriesBelow_lt_depthBound (t : FileTree) (q : Path) :
    entriesBelow t q < (t.below q).size + 2 := by
  have hsize : (t.below q).size = (t.entries.keys.filter fun p => decide (q <+: p)).length := by
    simp [FileTree.below, Dict.filterKeys, Dict.size, Dict.keys, List.filter_map, Function.comp_def]
  have hle : (t.entries.keys.filter fun p => decide (q <+: p ∧ q ≠ p)).length ≤
      (t.entries.keys.filter fun p => decide (q <+: p)).length := by
    refine (List.monotone_filter_right t.entries.keys fun p hp => ?_).length_le
    exact decide_eq_true (of_decide_eq_true hp).1
  rw [entriesBelow, hsize]
  omega

end App
end NetworkingFinal
