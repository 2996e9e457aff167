import Mathlib.Data.List.TakeWhile
import Mathlib.Tactic.Common
import Reckoner.Path.Suffix

/-!
# Results files

The results file of an input file is another file in the same folder (`resultsFile_beside`). All suffixes of the input
file become part of its stem.
-/
namespace Reckoner

/-! ### Parts of texts -/

namespace Text

theorem parts_eq_splitOn (sep : Char) (cs : List Char) : parts sep cs = cs.splitOn sep := by
  induction cs with
  | nil => rfl
  | cons c cs ih =>
    rw [parts, List.splitOn_cons_eq_if_modifyHead, ← ih]
    by_cases hc : c = sep
    · simp [hc]
    · cases hparts : parts sep cs with
      | nil => exact absurd hparts (parts_ne_nil sep cs)
      | cons p ps => simp [hc]

theorem notMem_of_mem_parts {sep : Char} {cs part : List Char} (h : part ∈ parts sep cs) : sep ∉ part := by
  induction cs generalizing part with
  | nil =>
    obtain rfl : part = [] := by simpa [parts] using h
    simp
  | cons c cs ih =>
    rw [parts] at h
    by_cases hc : c = sep
    · rw [if_pos hc] at h
      rcases List.mem_cons.1 h with rfl | h
      · simp
      · exact ih h
    · rw [if_neg hc] at h
      cases hparts : parts sep cs with
      | nil => exact absurd hparts (parts_ne_nil sep cs)
      | cons p ps =>
        rw [hparts] at h ih
        rcases List.mem_cons.1 h with rfl | h
        · simp [Ne.symm hc, ih List.mem_cons_self]
        · exact ih (List.mem_cons_of_mem _ h)

end Text

namespace Path

/-! ### Paths and their texts -/

structure IsPart (part : List Char) : Prop where
  ne_nil : part ≠ []
  ne_point : part ≠ ['.']
  slash_notMem : '/' ∉ part

/-- At most two slashes in front of parts that can stand in a path. -/
structure IsSound (p : Path) : Prop where
  root : p.root = [] ∨ p.root = ['/'] ∨ p.root = ['/', '/']
  parts : ∀ part ∈ p.parts, IsPart part

theorem isSound_ofText (cs : List Char) : (ofText cs).IsSound where
  root := by
    simp only [ofText, rootOf]
    split <;> simp
  parts := by
    intro part hpart
    obtain ⟨hmem, hne⟩ := List.mem_filter.1 hpart
    simp only [Bool.and_eq_true, bne_iff_ne, ne_eq] at hne
    exact ⟨hne.1, hne.2, Text.notMem_of_mem_parts hmem⟩

theorem filter_parts {ps : List (List Char)} (h : ∀ part ∈ ps, IsPart part) :
    ps.filter (fun p => p != [] && p != ['.']) = ps := by
  apply List.filter_eq_self.2
  intro part hpart
  simp [(h part hpart).ne_nil, (h part hpart).ne_point]

theorem ofText_root_append {root cs : List Char} (hroot : root = [] ∨ root = ['/'] ∨ root = ['/', '/'])
    (hcs : cs.head? ≠ some '/') :
    ofText (root ++ cs) = ⟨root, (Text.parts '/' cs).filter fun p => p != [] && p != ['.']⟩ := by
  have htake : cs.takeWhile (· == '/') = [] := by
    cases cs with
    | nil => rfl
    | cons c cs =>
      have hc : (c == '/') = false := by simpa using hcs
      rw [List.takeWhile_cons_of_neg (by simp [hc])]
  rcases hroot with rfl | rfl | rfl
  · simp [ofText, rootOf, htake]
  · simp [ofText, rootOf, htake, Text.parts]
  · simp [ofText, rootOf, htake, Text.parts]

theorem head?_intercalate_ne {ps : List (List Char)} (h : ∀ part ∈ ps, IsPart part) :
    (['/'].intercalate ps).head? ≠ some '/' := by
  match ps with
  | [] => simp
  | [p] =>
    intro hhead
    rw [List.intercalate_singleton] at hhead
    exact (h p (by simp)).slash_notMem (List.mem_of_mem_head? hhead)
  | p :: q :: ps =>
    obtain ⟨hne, -, hslash⟩ := h p (by simp)
    obtain ⟨c, cs, rfl⟩ := List.exists_cons_of_ne_nil hne
    intro hhead
    rw [List.intercalate_cons_cons] at hhead
    obtain rfl : c = '/' := by simpa using hhead
    exact hslash List.mem_cons_self

theorem IsSound.isNormal {p : Path} (h : p.IsSound) : p.IsNormal := by
  obtain ⟨root, ps⟩ := p
  obtain ⟨hroot, hps⟩ := h
  have hparts : (Text.parts '/' (['/'].intercalate ps)).filter (fun p => p != [] && p != ['.']) = ps := by
    cases ps with
    | nil => rfl
    | cons p ps =>
      rw [Text.parts_eq_splitOn,
        List.splitOn_intercalate '/' (fun part hpart => (hps part hpart).slash_notMem) (List.cons_ne_nil p ps)]
      exact filter_parts hps
  by_cases hempty : root = [] ∧ ps = []
  · obtain ⟨rfl, rfl⟩ := hempty
    rfl
  · have htext : (⟨root, ps⟩ : Path).text = root ++ ['/'].intercalate ps := by
      rw [text, if_neg (by simpa using hempty)]
    rw [IsNormal, htext, ofText_root_append hroot (head?_intercalate_ne hps), hparts]

theorem isNormal_ofText (cs : List Char) : (ofText cs).IsNormal :=
  (isSound_ofText cs).isNormal

theorem IsNormal.isSound {p : Path} (h : p.IsNormal) : p.IsSound := by
  rw [← h]
  exact isSound_ofText p.text

/-! ### Names of results files -/

theorem length_resultsName (name : List Char) : (resultsName name).length = name.length + 12 := by
  have hsuffix : resultsSuffix.length = 12 := by decide
  have hle : (extension name).length ≤ name.length := by
    rw [extension]
    split
    · exact Nat.zero_le _
    · exact Nat.le_trans (List.dropWhile_sublist _).length_le (List.dropWhile_sublist _).length_le
  simp only [resultsName, List.length_append, List.length_map, List.length_take]
  omega

theorem slash_notMem_resultsName {name : List Char} (h : '/' ∉ name) : '/' ∉ resultsName name := by
  have hsub : extension name ⊆ name := by
    rw [extension]
    split
    · simp
    · exact List.Subset.trans (List.dropWhile_subset _) (List.dropWhile_subset _)
  simp only [resultsName, List.mem_append, List.mem_map, not_or, not_exists, not_and]
  refine ⟨⟨fun hmem => h (List.mem_of_mem_take hmem), ?_⟩, by decide⟩
  intro c hc
  by_cases hpoint : c = '.'
  · simp [hpoint]
  · rw [if_neg hpoint]
    rintro rfl
    exact h (hsub hc)

theorem map_underscore_of_notMem {cs : List Char} (h : '.' ∉ cs) :
    (cs.map fun c => if c = '.' then '_' else c) = cs := by
  refine (List.map_congr_left ?_).trans (List.map_id cs)
  intro c hc
  rw [if_neg, id_eq]
  rintro rfl
  exact h hc

theorem point_notMem_map_underscore (cs : List Char) : '.' ∉ cs.map fun c => if c = '.' then '_' else c := by
  intro hmem
  obtain ⟨c, -, hc⟩ := List.mem_map.1 hmem
  split at hc
  · cases hc
  · next hne => exact hne hc

/-- The points in front of a name stay as they are, and all others become underscores. -/
theorem resultsName_eq {name : List Char} (h : name.getLast? ≠ some '.') :
    resultsName name = name.takeWhile (· == '.') ++
      ((name.dropWhile (· == '.')).map fun c => if c = '.' then '_' else c) ++ resultsSuffix := by
  have hext : extension name = (name.dropWhile (· == '.')).dropWhile (· != '.') := if_neg h
  generalize hlead : name.takeWhile (· == '.') = lead
  generalize hrest : name.dropWhile (· == '.') = rest at hext
  generalize hstem : rest.takeWhile (· != '.') = stem
  generalize hext' : rest.dropWhile (· != '.') = ext at hext
  have hrest' : rest = stem ++ ext := by rw [← hstem, ← hext', List.takeWhile_append_dropWhile]
  have hname : name = (lead ++ stem) ++ ext := by
    rw [List.append_assoc, ← hrest', ← hlead, ← hrest, List.takeWhile_append_dropWhile]
  have hpoint : '.' ∉ stem := by
    intro hmem
    rw [← hstem] at hmem
    simpa using List.mem_takeWhile_imp hmem
  have hlength : name.length - ext.length = (lead ++ stem).length := by
    rw [hname, List.length_append, Nat.add_sub_cancel]
  have htake : name.take (name.length - ext.length) = lead ++ stem := by
    rw [hlength, hname, List.take_left]
  rw [resultsName, hext, htake, hrest', List.map_append, map_underscore_of_notMem hpoint]
  simp

theorem dropWhile_ne_point (cs : List Char) :
    cs.dropWhile (· != '.') = ((Text.parts '.' cs).tail.map fun part => '.' :: part).flatten := by
  have hjoin (cs : List Char) : '.' :: cs = ((Text.parts '.' cs).map fun part => '.' :: part).flatten := by
    induction cs with
    | nil => rfl
    | cons c cs ih =>
      rw [Text.parts]
      by_cases hc : c = '.'
      · simp [hc, ih]
      · cases hparts : Text.parts '.' cs with
        | nil => exact absurd hparts (Text.parts_ne_nil '.' cs)
        | cons p ps =>
          rw [hparts] at ih
          simpa [hc] using ih
  induction cs with
  | nil => rfl
  | cons c cs ih =>
    by_cases hc : c = '.'
    · simp [hc, Text.parts, ← hjoin]
    · cases hparts : Text.parts '.' cs with
      | nil => exact absurd hparts (Text.parts_ne_nil '.' cs)
      | cons p ps =>
        rw [hparts] at ih
        simp [hc, Text.parts, hparts, ih]

theorem extension_eq_flatten (name : List Char) : extension name = (suffixes name).flatten := by
  rw [extension, suffixes]
  split
  · rfl
  · exact dropWhile_ne_point _

theorem suffixes_resultsName {name : List Char} (h : name.getLast? ≠ some '.') :
    suffixes (resultsName name) = [".txt".toList] := by
  have hlast : (resultsName name).getLast? ≠ some '.' := by
    have hsuffix : resultsSuffix.getLast? = some 't' := by decide
    simp [resultsName, hsuffix]
  have hlead : ∀ c ∈ name.takeWhile (· == '.'), (c == '.') = true := by
    intro c hc
    exact List.mem_takeWhile_imp (p := (· == '.')) hc
  have hflat := point_notMem_map_underscore (name.dropWhile (· == '.'))
  generalize hrest : (name.dropWhile (· == '.')).map (fun c => if c = '.' then '_' else c) = rest at hflat
  have hstem : '.' ∉ rest ++ "_results".toList := by
    rw [List.mem_append, not_or]
    exact ⟨hflat, by decide⟩
  have hsplit : rest ++ resultsSuffix = (rest ++ "_results".toList) ++ '.' :: "txt".toList := by
    rw [List.append_assoc]
    rfl
  have hhead : (rest ++ resultsSuffix).dropWhile (· == '.') = rest ++ resultsSuffix := by
    cases rest with
    | nil => rfl
    | cons c cs =>
      have hc : (c == '.') = false := by simpa [Ne.symm] using fun heq : c = '.' => hflat (by simp [heq])
      rw [List.cons_append, List.dropWhile_cons_of_neg (by simp [hc])]
  rw [suffixes, if_neg hlast, resultsName_eq h, hrest, List.append_assoc, List.dropWhile_append_of_pos hlead, hhead, hsplit,
    Text.parts_eq_splitOn, List.splitOn_append_cons_self_of_not_mem hstem, List.splitOn_eq_singleton (by decide)]
  rfl

/-! ### Results files -/

theorem isPart_resultsName {name : List Char} (h : '/' ∉ name) : IsPart (resultsName name) := by
  have hlength := length_resultsName name
  refine ⟨?_, ?_, slash_notMem_resultsName h⟩
  · intro hnil
    simp [hnil] at hlength
  · intro hpoint
    simp [hpoint] at hlength

theorem IsSound.replaceName {p : Path} (h : p.IsSound) {part : List Char} (hpart : IsPart part) :
    IsSound ⟨p.root, p.parts.dropLast ++ [part]⟩ where
  root := h.root
  parts := by
    intro part' hmem
    rcases List.mem_append.1 hmem with hmem | hmem
    · exact h.parts part' (List.dropLast_subset _ hmem)
    · exact List.mem_singleton.1 hmem ▸ hpart

theorem IsPart.ofText_eq {part : List Char} (h : IsPart part) : ofText part = ⟨[], [part]⟩ := by
  have hsound : IsSound ⟨[], [part]⟩ := ⟨.inl rfl, by simpa using h⟩
  have htext : (⟨[], [part]⟩ : Path).text = part := by simp [text]
  have hnormal := hsound.isNormal
  rwa [IsNormal, htext] at hnormal

theorem name_mem_parts {p : Path} (hp : p.name ≠ []) : p.name ∈ p.parts := by
  rw [name, List.getLastD_eq_getLast?] at hp ⊢
  cases hlast : p.parts.getLast? with
  | none => simp [hlast] at hp
  | some part => exact List.mem_of_getLast? hlast

/-- A path with a name has a results file: another path in the same folder. Where the name does not end with a point, the
points in front of it stay, all others become underscores, and `.txt` is the one suffix. If the path is what its text is
read as, so is the other, with another text, and its name is read as one part. -/
theorem resultsFile_beside (p : Path) (hp : p.name ≠ []) :
    ∃ q, p.resultsFile = .ok q ∧ q.folder = p.folder ∧ q ≠ p ∧
      (p.IsNormal → q.IsNormal ∧ q.text ≠ p.text ∧ ofText q.name = ⟨[], [q.name]⟩) ∧
      (p.name.getLast? ≠ some '.' →
        q.name = p.name.takeWhile (· == '.') ++
            ((p.name.dropWhile (· == '.')).map fun c => if c = '.' then '_' else c) ++ "_results.txt".toList ∧
          suffixes q.name = [".txt".toList]) := by
  have hname : (⟨p.root, p.parts.dropLast ++ [resultsName p.name]⟩ : Path).name = resultsName p.name := by simp [name]
  have hne : (⟨p.root, p.parts.dropLast ++ [resultsName p.name]⟩ : Path) ≠ p := by
    intro heq
    have hlength := length_resultsName p.name
    rw [← hname, heq] at hlength
    omega
  refine ⟨⟨p.root, p.parts.dropLast ++ [resultsName p.name]⟩, ?_, ?_, hne, ?_, ?_⟩
  · rw [resultsFile, if_neg (by simpa using hp)]
  · simp [folder]
  · intro hnormal
    have hpart := isPart_resultsName (hnormal.isSound.parts _ (name_mem_parts hp)).slash_notMem
    have hnormal' := (hnormal.isSound.replaceName hpart).isNormal
    refine ⟨hnormal', ?_, ?_⟩
    · intro htext
      rw [IsNormal, htext, hnormal] at hnormal'
      exact hne hnormal'.symm
    · rw [hname, hpart.ofText_eq]
  · intro hlast
    rw [hname]
    exact ⟨resultsName_eq hlast, suffixes_resultsName hlast⟩

/-- A name with points in front and two suffixes. -/
theorem resultsFile_beside_hidden :
    let p := ofText "data/..sums.tar.gz".toList
    p.name ≠ [] ∧ p.IsNormal ∧ p.name.getLast? ≠ some '.' ∧
      ∃ q, p.resultsFile = .ok q ∧ q ≠ p ∧ q.text = "data/..sums_tar_gz_results.txt".toList ∧
        suffixes q.name = [".txt".toList] := by
  intro p
  have hp : p.name ≠ [] := by decide
  have hlast : p.name.getLast? ≠ some '.' := by decide
  obtain ⟨q, hq, hfolder, hne, -, hflat⟩ := resultsFile_beside p hp
  have hq' : p.resultsFile = .ok (ofText "data/..sums_tar_gz_results.txt".toList) := by decide
  rw [hq'] at hq
  cases hq
  exact ⟨hp, isNormal_ofText _, hlast, _, hq', hne, by decide, (hflat hlast).2⟩

end Path
end Reckoner
