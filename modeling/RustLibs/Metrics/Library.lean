import Mathlib.Data.List.Basic

/-!
# Where the bindings look for the native library

The directory is the pathname of the URL `../target/release` against the
module's URL, with a final `/` ensured. On Windows every `/` becomes `\`
and one leading `\` is removed. The file name comes from a table keyed by
`Deno.build.os`; an OS the table lacks gives `undefined`.

Strings are lists of characters here: the operations used are `endsWith`,
`+=`, a global `replace` of one character, `startsWith` and `slice(1)`.
-/

namespace RustLibs.Metrics

/-- The values of `Deno.build.os`. -/
inductive Os where
  | darwin | linux | android | windows | freebsd | netbsd | aix | solaris | illumos
  deriving DecidableEq, Repr

/-- `uri`, from the pathname of the URL. -/
def libraryDirectory (os : Os) (pathname : List Char) : List Char :=
  let uri := if pathname.getLast? = some '/' then pathname else pathname ++ ['/']
  if os = .windows then
    let uri := uri.map fun c => if c = '/' then '\\' else c
    if uri.head? = some '\\' then uri.drop 1 else uri
  else uri

/-- The path `Deno.dlopen` is given: the table's entry for the OS. -/
def libraryPath (os : Os) (pathname : List Char) : Option (List Char) :=
  let uri := libraryDirectory os pathname
  match os with
  | .darwin => some (uri ++ "libmetrics.dylib".data)
  | .windows => some (uri ++ "metrics.dll".data)
  | .linux | .freebsd | .netbsd | .aix | .solaris | .illumos => some (uri ++ "libmetrics.so".data)
  | .android => none

theorem slash_not_mem_libraryDirectory_windows (pathname : List Char) :
    '/' ∉ libraryDirectory .windows pathname := by
  have hMap : ∀ l : List Char, '/' ∉ l.map fun c => if c = '/' then '\\' else c := by
    intro l
    simp only [List.mem_map, not_exists, not_and]
    intro c _
    split <;> simp_all
  simp only [libraryDirectory, if_true]
  generalize (if pathname.getLast? = some '/' then pathname else pathname ++ ['/']) = uri
  split
  · exact fun h => hMap _ (List.mem_of_mem_drop h)
  · exact hMap _

theorem libraryDirectory_windows_head (pathname : List Char) (h : '\\' ∉ pathname) :
    (libraryDirectory .windows pathname).head? = some '\\' ↔ pathname.take 2 = ['/', '/'] := by
  rcases pathname with _ | ⟨c₁, _ | ⟨c₂, rest⟩⟩
  · simp [libraryDirectory]
  · have h₁ : c₁ ≠ '\\' := fun e => h (e ▸ List.mem_cons_self _ _)
    by_cases h₂ : c₁ = '/' <;> simp [libraryDirectory, h₁, h₂]
  · have h₁ : c₁ ≠ '\\' := fun e => h (e ▸ List.mem_cons_self _ _)
    have h₂ : c₂ ≠ '\\' := fun e => h (e ▸ List.mem_cons_of_mem _ (List.mem_cons_self _ _))
    by_cases h₃ : c₁ = '/' <;> by_cases h₄ : c₂ = '/' <;>
      simp [libraryDirectory, h₁, h₂, h₃, h₄] <;> split_ifs <;> simp_all

/-- On Windows no `/` is left in the directory, and for a pathname with no
`\` the directory starts with `\` exactly when the pathname starts with `//`. -/
theorem libraryDirectory_windows (pathname : List Char) :
    '/' ∉ libraryDirectory .windows pathname ∧
      ('\\' ∉ pathname →
        ((libraryDirectory .windows pathname).head? = some '\\' ↔ pathname.take 2 = ['/', '/'])) :=
  ⟨slash_not_mem_libraryDirectory_windows pathname, libraryDirectory_windows_head pathname⟩

theorem libraryDirectory_windows_drive :
    '\\' ∉ "/C:/app/target/release".data ∧
      '/' ∉ libraryDirectory .windows "/C:/app/target/release".data ∧
      ((libraryDirectory .windows "/C:/app/target/release".data).head? = some '\\' ↔
        "/C:/app/target/release".data.take 2 = ['/', '/']) :=
  ⟨by decide, libraryDirectory_windows _ |>.1, (libraryDirectory_windows _).2 (by decide)⟩

end RustLibs.Metrics
