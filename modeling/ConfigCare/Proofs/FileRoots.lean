import ConfigCare.Project.Format
import ConfigCare.Proofs.PrunedFolders
import ConfigCare.Proofs.RegistryLoading
import ConfigCare.Proofs.ScanRuns

/-! A run for a single file, whose globs are matched against all of its path. A glob that matches the name
of the file by itself also matches the path of any folder with that name behind it, unless a slash in front
ties it to the root. So what a run for the folder leaves out for such a glob, a run for the file leaves out
as well. -/

namespace ConfigCare.Glob

open Regex (Pattern)

variable {c : Char} {first slash : Bool} {s t u m r name : Text} {ss rest : List Text}

/-! ## Segments in a folder -/

/-- Where a slash has to come first, there is one. -/
theorem slash_mem_of_languageFrom (h : u ∈ languageFrom false true (s :: rest)) : '/' ∈ u := by
  induction rest generalizing s u with
  | nil =>
    simp only [languageFrom, Bool.false_and, Bool.false_eq_true, if_false, List.isEmpty_nil, if_true,
      mul_one] at h
    split_ifs at h
    · obtain ⟨w, rfl, -⟩ := mem_underSlash.1 h
      exact List.mem_cons_self
    · rw [mul_assoc] at h
      obtain ⟨_, rfl, w, -, rfl⟩ := Language.mem_mul.1 h
      exact List.mem_cons_self
  | cons t rest ih =>
    rw [languageFrom] at h
    simp only [Bool.false_and, Bool.false_eq_true, if_false, List.isEmpty_cons, if_true] at h
    split_ifs at h
    · obtain ⟨v, -, w, hw, rfl⟩ := Language.mem_mul.1 h
      exact List.mem_append_right v (ih hw)
    · obtain ⟨v, -, w, hw, rfl⟩ := Language.mem_mul.1 h
      exact List.mem_append_right v (ih hw)

/-- Several segments of which the first is no double star take no name. -/
theorem slash_mem_of_several (hs : s ≠ doubleStar)
    (h : u ∈ languageFrom true false (s :: t :: rest)) : '/' ∈ u := by
  rw [languageFrom] at h
  simp only [if_neg hs] at h
  obtain ⟨v, -, w, hw, rfl⟩ := Language.mem_mul.1 h
  exact List.mem_append_right v (slash_mem_of_languageFrom hw)

/-- Segments that begin with a double star take with a name the name in any folder. `m` is the first name
of the path of the folder, and `r` is the rest of it. -/
theorem append_mem_of_doubleStar (hm : m ∈ nonempty names) (hr : r ∈ 1 + underSlash)
    (hline : '\n' ∉ m ++ r ++ u) (hu : '/' ∉ u) (h : u ∈ languageFrom true false (doubleStar :: rest)) :
    m ++ r ++ '/' :: u ∈ languageFrom true false (doubleStar :: rest) := by
  simp only [List.mem_append, not_or] at hline
  cases rest with
  | nil =>
    simp only [languageFrom, List.isEmpty_nil, Bool.and_true, if_true] at h ⊢
    rw [List.append_assoc]
    refine Language.append_mem_mul hm (.inr ?_)
    rcases hr with rfl | hr
    · exact mem_underSlash.2 ⟨u, rfl, hline.2⟩
    · exact append_mem_underSlash hr (by simp [hline.2])
  | cons t rest =>
    rw [languageFrom] at h ⊢
    simp only [List.isEmpty_cons, Bool.and_false, Bool.false_eq_true, if_false, if_true] at h ⊢
    obtain ⟨v, hv, w, hw, rfl⟩ := Language.mem_mul.1 h
    -- the name has no slash for the double star to end with
    obtain rfl : v = [] := by
      rcases hv with hv | hv
      · exact hv
      · obtain ⟨_, -, _, rfl, rfl⟩ := Language.mem_mul.1 hv
        simp at hu
    have hfolder : m ++ r ∈ nonempty inLine := by
      refine ⟨?_, mem_inLine.2 (by simp [hline.1])⟩
      rw [List.length_append]
      exact Nat.le_add_right_of_le hm.1
    have hbefore : m ++ r ++ ['/'] ∈ 1 + nonempty inLine * {['/']} :=
      .inr (Language.append_mem_mul hfolder rfl)
    simpa using Language.append_mem_mul hbefore hw

theorem head?_collapseStars (ss : List Text) : (collapseStars ss).head? = ss.head? := by
  induction ss using collapseStars.induct with
  | case1 s t rest h ih =>
    rw [collapseStars, if_pos h, ih]
    simp only [Bool.and_eq_true, decide_eq_true_eq] at h
    rw [h.1, h.2]
    rfl
  | case2 s t rest h ih =>
    rw [collapseStars, if_neg h]
    rfl
  | case3 ss h => rw [collapseStars.eq_2 ss h]

theorem closed_shape (ss : List Text) :
    (closed ss).head? = ss.head? ∧ (closed ss).length = ss.length := by
  unfold closed
  split
  · next s rest h =>
    obtain rfl : ss = ([] :: s :: rest).reverse := by rw [← h, List.reverse_reverse]
    simp [List.head?_append, List.head?_reverse]
  · exact ⟨rfl, rfl⟩

/-! ## Globs in a folder -/

/-- Whether a slash in front ties a glob to the root. With a double star behind it the glob matches at every
depth all the same. -/
def rooted (glob : Text) : Bool :=
  match Text.splitOn '/' (Rule.trimmed glob) with
  | [] :: s :: _ => s ≠ doubleStar
  | _ => false

/-- Segments that do not begin with a slash are anchored by a double star, or are several. -/
theorem anchored_of_head (h : ss.head? = some s) (hs : s ≠ []) :
    (anchored ss).head? = some doubleStar ∨ 2 ≤ (anchored ss).length := by
  unfold anchored
  split
  · exact absurd (Option.some.inj h).symm hs
  · split_ifs with hstars
    · exact .inl (congrArg some hstars)
    · exact .inl rfl
  · split_ifs with hstars
    · exact .inl (congrArg some hstars)
    · exact .inl rfl
  · next _ hone _ =>
    cases ss with
    | nil => cases h
    | cons t rest =>
      cases rest with
      | nil => exact absurd rfl (hone t)
      | cons => exact .inr (by simp)

theorem anchored_of_not_rooted {glob : Text} (hrooted : rooted glob = false)
    (hne : Rule.trimmed glob ≠ []) :
    (anchored (collapseStars (Text.splitOn '/' (Rule.trimmed glob)))).head? = some doubleStar ∨
      2 ≤ (anchored (collapseStars (Text.splitOn '/' (Rule.trimmed glob)))).length := by
  have hempty : Text.splitOn '/' (Rule.trimmed glob) ≠ [[]] := fun h => hne <| by
    rw [← Text.joinWith_splitOn '/' (Rule.trimmed glob), h]
    rfl
  have hnil := Text.splitOn_ne_nil '/' (Rule.trimmed glob)
  unfold rooted at hrooted
  generalize Text.splitOn '/' (Rule.trimmed glob) = ss at hrooted hempty hnil
  obtain ⟨s, rest, rfl⟩ := List.exists_cons_of_ne_nil hnil
  by_cases hs : s = []
  · subst hs
    obtain ⟨t, rest, rfl⟩ := List.exists_cons_of_ne_nil fun hrest : rest = [] =>
      hempty (by rw [hrest])
    have hstars : t = doubleStar := by simpa using hrooted
    left
    rw [collapseStars, if_neg (by simp [doubleStar])]
    change (collapseStars (t :: rest)).head? = some doubleStar
    rw [head?_collapseStars, hstars]
    rfl
  · exact anchored_of_head (head?_collapseStars _) hs

/-- A glob that is not tied to the root takes with a name the name in any folder. -/
theorem append_mem_globLanguage {glob : Text} (hrooted : rooted glob = false)
    (hne : Rule.trimmed glob ≠ []) (hm : m ∈ nonempty names) (hr : r ∈ 1 + underSlash)
    (hline : '\n' ∉ m ++ r ++ u) (hu : '/' ∉ u) (h : u ∈ globLanguage (Rule.trimmed glob)) :
    m ++ r ++ '/' :: u ∈ globLanguage (Rule.trimmed glob) := by
  simp only [globLanguage] at h ⊢
  split_ifs at h ⊢
  · obtain ⟨v, -, w, hw, rfl⟩ := Language.mem_mul.1 h
    obtain ⟨w, rfl, -⟩ := mem_underSlash.1 hw
    simp at hu
  · have hshape := anchored_of_not_rooted hrooted hne
    obtain ⟨hhead, hlength⟩ :=
      closed_shape (anchored (collapseStars (Text.splitOn '/' (Rule.trimmed glob))))
    rw [← hhead, ← hlength] at hshape
    generalize closed (anchored (collapseStars (Text.splitOn '/' (Rule.trimmed glob)))) = ss
      at h hshape
    cases ss with
    | nil => simp at hshape
    | cons s rest =>
      by_cases hs : s = doubleStar
      · subst hs
        exact append_mem_of_doubleStar hm hr hline hu h
      · rcases hshape with hstars | hseveral
        · exact absurd (Option.some.inj hstars) hs
        · cases rest with
          | nil => simp at hseveral
          | cons t rest => exact absurd (slash_mem_of_several hs h) hu

/-- A glob that is not tied to the root and matches a name matches it in any folder. -/
theorem Matches.in_folder {glob : Text} (h : Matches glob u)
    (hpositive : (Rule.trimmed glob).head? ≠ some '!') (hrooted : rooted glob = false)
    (hm : m ∈ nonempty names) (hr : r ∈ 1 + underSlash) (hline : '\n' ∉ m ++ r ++ u) (hu : '/' ∉ u) :
    Matches glob (m ++ r ++ '/' :: u) := by
  obtain ⟨g, hcompile, hmatch⟩ := h
  obtain ⟨-, hne, -, -, e, he, hparse⟩ := Rule.compile?_spec hcompile hpositive
  have hlines : '\n' ∉ m ++ r ++ '/' :: u := by simpa [or_assoc] using hline
  simp only [List.mem_append, not_or] at hline
  refine ⟨g, hcompile, (matchesStart_iff_mem_globLanguage he hparse hlines).2 ?_⟩
  exact append_mem_globLanguage hrooted hne hm hr (by simp [hline]) hu
    ((matchesStart_iff_mem_globLanguage he hparse hline.2).1 hmatch)

end ConfigCare.Glob

namespace ConfigCare.Files

open Glob (IgnoreList Matches rooted)

/-! ## Paths -/

/-- A path is its first name and what follows behind a slash, if anything does. -/
theorem exists_first_name {place : List Text} (hne : place ≠ []) (hnames : ∀ n ∈ place, IsName n) :
    ∃ m ∈ Glob.nonempty Glob.names, ∃ r ∈ 1 + Glob.underSlash, Text.joinWith ['/'] place = m ++ r := by
  obtain ⟨m, ms, rfl⟩ := List.exists_cons_of_ne_nil hne
  rw [List.forall_mem_cons] at hnames
  have hm : m ∈ Glob.nonempty Glob.names := by
    refine ⟨List.length_pos_iff.2 hnames.1.ne_nil, fun x hx => ?_⟩
    simpa using ne_of_mem_of_not_mem hx hnames.1.noSlash
  by_cases hms : ms = []
  · subst hms
    exact ⟨m, hm, [], .inl rfl, (List.append_nil m).symm⟩
  · refine ⟨m, hm, '/' :: Text.joinWith ['/'] ms, .inr ?_, ?_⟩
    · exact Glob.mem_underSlash.2 ⟨_, rfl, inLine_joinWith hnames.2⟩
    · rw [Text.joinWith_cons _ _ hms, List.append_assoc]
      rfl

variable {globs extensions place : List Text} {gs : IgnoreList} {name : Text} {tree : Entry}
  {content : Bytes} {skipHidden : Bool}

/-- A file that is left out by its name is left out by all of its path, if it lies in the root of all files
or a glob that is not tied to the root matches its name. -/
theorem ignores_in_folder (hgs : IgnoreList.compile globs = .ok gs)
    (hpositive : ∀ glob ∈ globs, (Glob.Rule.trimmed glob).head? ≠ some '!')
    (hnames : ∀ n ∈ place ++ [name], IsName n) (hname : gs.ignores name = true)
    (hfree : place = [] ∨ ∃ glob ∈ globs, rooted glob = false ∧ Matches glob name) :
    gs.ignores (Text.joinWith ['/'] (place ++ [name])) = true := by
  by_cases hplace : place = []
  · subst hplace
    exact hname
  · obtain ⟨glob, hmem, hrooted, hmatches⟩ := hfree.resolve_left hplace
    have hpath := relative_joinWith hnames (by simp) []
    rw [List.append_nil] at hpath
    rw [IgnoreList.ignores_iff hgs hpositive, hpath]
    have hline := inLine_joinWith hnames
    rw [List.forall_mem_append] at hnames
    obtain ⟨m, hm, r, hr, heq⟩ := exists_first_name hplace hnames.1
    have hsplit : Text.joinWith ['/'] (place ++ [name]) = m ++ r ++ '/' :: name := by
      rw [Text.joinWith_append _ hplace (List.cons_ne_nil name []), heq, List.append_assoc]
      rfl
    rw [hsplit] at hline ⊢
    refine ⟨glob, hmem, hmatches.in_folder (hpositive glob hmem) hrooted hm hr ?_
      (hnames.2 name List.mem_cons_self).noSlash⟩
    simpa [or_assoc] using hline

/-- A run for a folder does not look into a file of it that is left out by its name. -/
theorem not_mem_collect (htree : tree.Proper) {es : List (Text × Entry)}
    (hfolder : tree.find place = .ok (.folder es)) (hname : gs.ignores name = true) {found : Collected}
    (hfound : collect ⟨gs, extensions, skipHidden⟩ place tree = .ok found) :
    ∀ c ∈ found.candidates, c.place ≠ place ++ [name] := by
  obtain rfl : (walkFolder ⟨gs, extensions, skipHidden⟩ es).below place = found := by
    simpa [collect, walk, hfolder] using hfound
  intro c hc heq
  obtain ⟨names, hnames, rfl⟩ := List.mem_map.1 hc
  obtain rfl : names = [name] := List.append_cancel_left heq
  obtain ⟨seen, hfiles, -, -, hmem⟩ :=
    lists_walkFolder (s := ⟨gs, extensions, skipHidden⟩) (proper_find htree hfolder)
  rw [hfiles] at hnames
  obtain ⟨below, _, hbelow, -, hsees⟩ := (hmem _).1 (List.mem_of_mem_filter hnames)
  have hkept := hsees.kept
  rw [← hbelow] at hkept
  simp [Selection.ignores, Text.joinWith, hname] at hkept

theorem collect_file (hfile : tree.find place = .ok (.file content))
    (h : gs.ignores (Text.joinWith ['/'] place) = true) :
    collect ⟨gs, extensions, skipHidden⟩ place tree = .ok ⟨[], 0⟩ := by
  simp [collect, hfile, Selection.ignores, h]

theorem exists_folder (hfile : tree.find (place ++ [name]) = .ok (.file content)) :
    ∃ es, tree.find place = .ok (.folder es) := by
  rw [Entry.find_append] at hfile
  cases hfind : tree.find place with
  | error fault =>
    rw [hfind] at hfile
    cases hfile
  | ok e =>
    rw [hfind] at hfile
    cases e with
    | file => cases hfile
    | folder es => exact ⟨es, rfl⟩

end ConfigCare.Files

namespace ConfigCare.Project

open Files
open Glob (IgnoreList Matches rooted)
open Secret (Registry)
open Secret.Registry (eq_ok_of_toOption)

variable {globs place : List Text} {gs : IgnoreList} {name : Text} {content : Bytes} {disk : Disk}

/-- A file that a run for its folder leaves out by its name is left out by a run for the file itself, which
neither looks into it nor counts it, if it lies in the root of all files or some glob that matches its name
is not tied to the root. So it is in formatting, and in searching with the rules of the folder. -/
theorem file_root_left_out (hgs : IgnoreList.compile globs = .ok gs)
    (hpositive : ∀ glob ∈ globs, (Glob.Rule.trimmed glob).head? ≠ some '!') (hdisk : disk.Proper)
    (hfile : disk.tree.find (place ++ [name]) = .ok (.file content))
    (hline : ∀ n ∈ place ++ [name], '\n' ∉ n) (hname : gs.ignores name = true)
    (hfree : place = [] ∨ ∃ glob ∈ globs, rooted glob = false ∧ Matches glob name) :
    (∀ extensions skipHidden,
      (∀ found, collect ⟨gs, extensions, skipHidden⟩ place disk.tree = .ok found →
        ∀ c ∈ found.candidates, c.place ≠ place ++ [name]) ∧
      collect ⟨gs, extensions, skipHidden⟩ (place ++ [name]) disk.tree = .ok ⟨[], 0⟩) ∧
    ∀ p single : Project, p.place = place → single = { p with place := place ++ [name] } →
      (p.settings.formatter.ignoreGlobs = globs → single.formatFiles disk.tree = .ok ⟨[], 0⟩) ∧
      ∀ registry rules found, Registry.load disk (some (p.patternsPath disk.tree)) = .ok registry →
        registry.ignoreGlobs = globs → p.scanPlan disk = .ok (rules, found) →
        single.scanPlan disk = .ok (rules, ⟨[], 0⟩) := by
  have hnames : ∀ n ∈ place ++ [name], IsName n := fun n hn => by
    obtain ⟨hne, hslash, hhere, -⟩ := hdisk.named.isEntryName hfile n hn
    exact ⟨hne, hslash, hhere, hline n hn⟩
  obtain ⟨es, hfolder⟩ := exists_folder hfile
  have hcollect (extensions : List Text) (skipHidden : Bool) :
      collect ⟨gs, extensions, skipHidden⟩ (place ++ [name]) disk.tree = .ok ⟨[], 0⟩ :=
    collect_file hfile (ignores_in_folder hgs hpositive hnames hname hfree)
  have hselection (extensions : List Text) (skipHidden : Bool) :
      Selection.ofGlobs globs extensions skipHidden = .ok ⟨gs, extensions, skipHidden⟩ := by
    rw [Selection.ofGlobs, hgs]
    rfl
  refine ⟨fun extensions skipHidden => ⟨fun found hfound => ?_, hcollect extensions skipHidden⟩, ?_⟩
  · exact not_mem_collect hdisk.distinct hfolder hname hfound
  · rintro p single rfl rfl
    refine ⟨fun hglobs => ?_, fun registry rules found hload hglobs hplan => ?_⟩
    · rw [formatFiles, hglobs, hselection]
      simp only [hcollect]
      rfl
    · have hpath : ({ p with place := p.place ++ [name] } : Project).patternsPath disk.tree =
          p.patternsPath disk.tree := by
        simp only [patternsPath, base, hfile, hfolder, List.dropLast_concat]
      obtain ⟨registry', -, hload', hrules, -, -⟩ := scanPlan_eq_ok_iff.1 hplan
      obtain rfl : registry = registry' := Except.ok.inj (hload.symm.trans hload')
      exact scanPlan_eq_ok_iff.2 ⟨registry, _, hpath ▸ hload, hrules, hglobs ▸ hselection _ _,
        hcollect _ _⟩

/-- A search and a formatting run with one glob that is tied to the root and one that is not, which both
match the name of the file. -/
theorem file_root_left_out_of_two_globs :
    let globs := [Text.lit "/*.json", Text.lit "x.*"]
    let registry := Text.lit ("\x7b\"patterns\": [\x7b\"name\": \"r\", \"pattern\": \"t\"\x7d], " ++
      "\"ignorePatterns\": [\"/*.json\", \"x.*\"]\x7d")
    let disk : Disk := ⟨.folder [(Text.lit "srv", .folder [(Text.lit "x.json", .file []),
      (Text.lit ".secrets-patterns.json", .file (Utf8.encode registry))])], []⟩
    let p : Project := ⟨[Text.lit "srv"], ⟨1, .default, ⟨[], globs, false⟩, .default⟩, none⟩
    let single : Project := { p with place := [Text.lit "srv", Text.lit "x.json"] }
    disk.Proper ∧ (∀ glob ∈ globs, Matches glob (Text.lit "x.json")) ∧ globs.map rooted = [true, false] ∧
      single.formatFiles disk.tree = .ok ⟨[], 0⟩ ∧
      ∃ rules, single.scanPlan disk = .ok (rules, ⟨[], 0⟩) := by
  intro globs registry disk p single
  have hdisk : disk.Proper := by
    refine ⟨rfl, .folder (by decide) fun e he => ?_, .folder (fun e he => ?_) fun e he => ?_⟩ <;>
      obtain rfl := List.mem_singleton.1 he
    · refine .folder (by decide) fun e he => ?_
      rcases List.mem_pair.1 he with rfl | rfl <;> exact .file _
    · exact ⟨by decide, by decide, by decide, by decide⟩
    · refine .folder (fun e he => ?_) fun e he => ?_ <;> rcases List.mem_pair.1 he with rfl | rfl
      all_goals first
        | exact .file _
        | exact ⟨by decide, by decide, by decide, by decide⟩
  have hpositive : ∀ glob ∈ globs, (Glob.Rule.trimmed glob).head? ≠ some '!' := by decide +kernel
  have hmatches : ∀ glob ∈ globs, Matches glob (Text.lit "x.json") := by decide +kernel
  have hignored : (IgnoreList.compile globs).toOption.map (·.ignores (Text.lit "x.json")) =
      some true := by
    decide +kernel
  have hloaded : (Registry.load disk (some (p.patternsPath disk.tree))).toOption.map (·.ignoreGlobs) =
      some globs := by
    decide +kernel
  have hplanned : (p.scanPlan disk).toOption.map (·.2) = some ⟨[], 0⟩ := by decide +kernel
  obtain ⟨gs, hgs, hname⟩ := Option.map_eq_some_iff.1 hignored
  obtain ⟨registry, hload, hglobs⟩ := Option.map_eq_some_iff.1 hloaded
  obtain ⟨⟨rules, found⟩, hplan, -⟩ := Option.map_eq_some_iff.1 hplanned
  have hfile : disk.tree.find ([Text.lit "srv"] ++ [Text.lit "x.json"]) = .ok (.file []) := rfl
  obtain ⟨hformat, hscan⟩ := (file_root_left_out (eq_ok_of_toOption hgs) hpositive hdisk hfile (by decide)
    hname (.inr ⟨Text.lit "x.*", by decide, by decide, hmatches _ (by decide)⟩)).2 p single rfl rfl
  exact ⟨hdisk, hmatches, by decide, hformat rfl,
    rules, hscan registry rules found (eq_ok_of_toOption hload) hglobs (eq_ok_of_toOption hplan)⟩

/-- A run for a file finds what a run for its folder leaves out: a slash in front ties a glob to the root of
all files, white space hides an exclamation mark, and the globs of a folder do not take a line break. -/
theorem file_root_finds_ignored :
    let tree (folder name : Text) := Entry.folder [(folder, .folder [(name, .file [])])]
    let project (place globs : List Text) : Project :=
      ⟨place, ⟨1, .default, ⟨[Text.lit ".json"], globs, false⟩, .default⟩, none⟩
    let Finds (folder name : Text) (globs : List Text) : Prop :=
      (∀ glob ∈ globs, glob.head? ≠ some '!') ∧
        (∃ gs, IgnoreList.compile globs = .ok gs ∧ gs.ignores name = true) ∧
        (project [folder] globs).formatFiles (tree folder name) = .ok ⟨[], 0⟩ ∧
        (project [folder, name] globs).formatFiles (tree folder name) =
          .ok ⟨[⟨[folder, name], name⟩], 1⟩
    Finds (Text.lit "srv") (Text.lit "x.json") [Text.lit "/x.json"] ∧
      Finds (Text.lit "srv") (Text.lit "x.json") [Text.lit "x.json", Text.lit " !**/srv/**"] ∧
      Finds (Text.lit "a\nb") (Text.lit "x.json") [Text.lit "x.json"] ∧
      Finds (Text.lit "srv") (Text.lit "a\nb.json") [Text.lit "**"] := by
  intro tree project Finds
  have hfinds (folder name : Text) (globs : List Text) (hhead : ∀ glob ∈ globs, glob.head? ≠ some '!')
      (htold : (IgnoreList.compile globs).toOption.map (·.ignores name) = some true ∧
        ((project [folder] globs).formatFiles (tree folder name)).toOption = some ⟨[], 0⟩ ∧
        ((project [folder, name] globs).formatFiles (tree folder name)).toOption =
          some ⟨[⟨[folder, name], name⟩], 1⟩) : Finds folder name globs := by
    obtain ⟨hignored, hfolder, hfile⟩ := htold
    obtain ⟨gs, hgs, hname⟩ := Option.map_eq_some_iff.1 hignored
    exact ⟨hhead, ⟨gs, eq_ok_of_toOption hgs, hname⟩, eq_ok_of_toOption hfolder, eq_ok_of_toOption hfile⟩
  exact ⟨hfinds _ _ _ (by decide) (by decide +kernel), hfinds _ _ _ (by decide) (by decide +kernel),
    hfinds _ _ _ (by decide) (by decide +kernel), hfinds _ _ _ (by decide) (by decide +kernel)⟩

end ConfigCare.Project
