/-
  NetworkingFinal.Net.Listing

  A listing from the server's tree to the client's table: `load_directory` packs it,
  `print_directory_content` reads it.

  The length of a name counts characters on one side and bytes on the other, so the
  client prints the listing exactly if all its names are ASCII
  (`listing_readable_iff`).
-/
import NetworkingFinal.App.Controller
import NetworkingFinal.App.Listing
import NetworkingFinal.Client.Listing

namespace NetworkingFinal
namespace Net

open Py Py.Prog Py.Os Py.Struct App Client Ftp

variable {env : Env}

/-- `self.load_directory(directoryPath, "", recursive)` -/
def loadListing (env : Env) (recursive : Bool) (directoryPath : Str) : Prog FileTree Bytes := do
  let fuel ← depthBound env.cwd directoryPath
  loadDirectory env fuel directoryPath [] recursive

/-- The bytes `load_directory` returns are read to their end, as the listing of the
    directory `q`. -/
def ListingReadable (env : Env) (recursive : Bool) (s : FileTree) (directoryPath : Str)
    (q : Path) : Prop :=
  ∃ data, loadListing env recursive directoryPath s = .ok data s ∧
    printDirectoryContent data = .ok (listing s recursive q, data.length)

/-- A listing is complete and readable exactly if every path in it is ASCII, and its
    length and the sizes of the files fit their fields. -/
theorem listing_readable_iff {recursive : Bool} {s : FileTree} {directoryPath : Str} {q : Path}
    (hq : resolve env.cwd s directoryPath = .ok q) (hdir : s.isDir q = true) :
    ListingReadable env recursive s directoryPath q ↔
      ∀ b ∈ listing s recursive q, b.Fits ∧ Ascii b.name := by
  have hload : ∀ data, loadListing env recursive directoryPath s = .ok data s ↔
      packBlocks (listing s recursive q) = .ok data := by
    intro data
    have hfuel : depthBound env.cwd directoryPath s = .ok ((s.below q).size + 2) s := by
      rw [depthBound, reads_ok_iff, hq]
      exact ⟨rfl, rfl⟩
    rw [loadListing, bind_of_ok hfuel,
    loadDirectory_ok_iff hq hdir (entriesBelow_lt_depthBound s q)]
    exact ⟨fun h => h.2, fun h => ⟨rfl, h⟩⟩
  constructor
  · rintro ⟨data, hdata, hprint⟩ b hb
    rw [hload] at hdata
    exact ⟨packBlocks_ok_iff.mp ⟨data, hdata⟩ b hb,
      (printDirectoryContent_iff hdata).mp hprint b hb⟩
  · intro h
    obtain ⟨data, hdata⟩ := packBlocks_ok_iff.mpr fun b hb => (h b hb).1
    exact ⟨data, (hload data).mpr hdata,
      (printDirectoryContent_iff hdata).mpr fun b hb => (h b hb).2⟩

/-- The public directory of an installation with the file `a`. -/
theorem listing_readable_iff_public :
    ListingReadable default true (installedWith default ['a'] [1, 2, 3]) (publicPath default)
      (PosixPath.comps (publicPath default)) :=
  (listing_readable_iff (by rfl) (by decide +kernel)).mpr (by decide +kernel)

/-- Every listing of every directory is complete and readable. -/
def ListingsReadable (env : Env) : Prop :=
  ∀ (recursive : Bool) (s : FileTree) (directoryPath : Str) (q : Path),
    resolve env.cwd s directoryPath = .ok q → s.isDir q = true →
    ListingReadable env recursive s directoryPath q

/-- The name `é` is one character and two bytes, of which the client decodes one. -/
theorem not_listingsReadable : ¬ ListingsReadable default := by
  intro h
  obtain ⟨data, hload, hprint⟩ := h false (installedWith default ['é'] [1, 2, 3])
    (publicPath default) (PosixPath.comps (publicPath default)) (by rfl) (by decide +kernel)
  have hread : (match loadListing default false (publicPath default)
      (installedWith default ['é'] [1, 2, 3]) with
      | .ok data _ => printDirectoryContent data
      | .error e _ => .error e) = .error .unicodeDecodeError := by decide +kernel
  rw [hload] at hread
  have hfail : printDirectoryContent data = .error .unicodeDecodeError := hread
  rw [hfail] at hprint
  cases hprint

end Net
end NetworkingFinal
