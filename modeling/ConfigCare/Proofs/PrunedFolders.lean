import ConfigCare.Proofs.GlobLanguages
import ConfigCare.Proofs.WalkedFiles

/-! What a folder that is not walked can hide. A folder is left out if a glob matches its path, or its path
with a slash behind. In both cases the glob matches all that lies below, unless its last segment is more
than a set and ends with one that takes the slash. So where no glob is of that kind and none takes paths
back in, a walk misses no file that is not ignored itself. -/

namespace ConfigCare.Glob

/-- What the last segments of a glob can be left with of a folder's path and the slash behind it: nothing,
or what ends with one slash. It is the slash alone only if a slash is to come first. -/
def FolderRest (slash : Bool) (u : Text) : Prop :=
  u = [] ∨ ∃ v, u = v ++ ['/'] ∧ v.getLast? ≠ some '/' ∧ (v = [] → slash = true)

/-- A language of paths that holds, with a folder, whatever lies below it; `behind` is for a folder whose
last slash is in the language with it. -/
structure Deepens (slash : Bool) (l : Language Char) : Prop where
  below : ∀ {u w}, u ∈ l → '\n' ∉ w → u ++ '/' :: w ∈ l
  behind : ∀ {u w}, u ∈ l → FolderRest slash u → '\n' ∉ w → u ++ w ∈ l

variable {l m : Language Char} {slash slash' : Bool} {a b s u w : Text} {is : List Item}

/-- What is left behind a first part. A slash cannot come first at the start of a path, nor behind another
slash. -/
theorem FolderRest.suffix (h : FolderRest slash (a ++ b))
    (hfirst : slash' = false → a = [] ∧ slash = false ∨ a.getLast? = some '/') :
    FolderRest slash' b := by
  rcases List.eq_nil_or_concat b with rfl | ⟨b, c, rfl⟩
  · exact .inl rfl
  · obtain hnil | ⟨v, hv, hlast, hslash⟩ := h
    · simp at hnil
    · rw [List.concat_eq_append, ← List.append_assoc] at hv
      obtain ⟨rfl, hc⟩ := List.append_inj' hv rfl
      refine .inr ⟨b, by rw [List.concat_eq_append, hc], ?_, ?_⟩
      · cases b with
        | nil => simp
        | cons d ds => simpa using hlast
      · rintro rfl
        rw [List.append_nil] at hlast hslash
        by_contra hcome
        rcases hfirst (Bool.eq_false_iff.2 hcome) with ⟨ha, hcome'⟩ | hend
        · rw [hslash ha] at hcome'
          cases hcome'
        · exact hlast hend

theorem mem_inLine : u ∈ inLine ↔ '\n' ∉ u := by
  constructor
  · intro hu hmem
    simpa using hu _ hmem
  · intro hu x hx
    simpa using fun heq : x = '\n' => hu (heq ▸ hx)

theorem mem_underSlash : u ∈ underSlash ↔ ∃ w, u = '/' :: w ∧ '\n' ∉ w := by
  constructor
  · intro hu
    obtain ⟨_, rfl, w, hw, rfl⟩ := Language.mem_mul.1 hu
    exact ⟨w, rfl, mem_inLine.1 hw⟩
  · rintro ⟨w, rfl, hw⟩
    exact Language.append_mem_mul (a := ['/']) rfl (mem_inLine.2 hw)

theorem append_mem_underSlash (hu : u ∈ underSlash) (hw : '\n' ∉ w) : u ++ w ∈ underSlash := by
  obtain ⟨v, rfl, hv⟩ := mem_underSlash.1 hu
  exact mem_underSlash.2 ⟨v ++ w, rfl, by simp [hv, hw]⟩

theorem deepens_underSlash (slash : Bool) : Deepens slash underSlash :=
  ⟨fun hu hw => append_mem_underSlash hu (by simpa using hw),
    fun hu _ hw => append_mem_underSlash hu hw⟩

/-- Of what comes first it counts only whether it leaves a slash to come. -/
theorem Deepens.mul (h : Deepens slash' l)
    (hfirst : ∀ a ∈ m, slash' = false → a = [] ∧ slash = false ∨ a.getLast? = some '/') :
    Deepens slash (m * l) := by
  constructor
  · intro u w hu hw
    obtain ⟨a, ha, b, hb, rfl⟩ := Language.mem_mul.1 hu
    rw [List.append_assoc]
    exact Language.append_mem_mul ha (h.below hb hw)
  · intro u w hu hrest hw
    obtain ⟨a, ha, b, hb, rfl⟩ := Language.mem_mul.1 hu
    rw [List.append_assoc]
    exact Language.append_mem_mul ha (h.behind hb (hrest.suffix (hfirst a ha)) hw)

/-- Where a slash is to come first, it does not matter what comes before. -/
theorem Deepens.mul_any (h : Deepens true l) (m : Language Char) : Deepens slash (m * l) :=
  h.mul fun _ _ hnone => absurd hnone.symm Bool.false_ne_true

/-- What a glob ends with lets through to all below, if it can go on where it has taken a slash. -/
theorem deepens_of_last
    (h : ∀ {u w}, u ∈ l → FolderRest slash u → '\n' ∉ w → u ++ w ∈ l * (1 + underSlash)) :
    Deepens slash (l * (1 + underSlash)) := by
  have hadd {a b : Text} (ha : a ∈ l) (hb : b ∈ underSlash) : a ++ b ∈ l * (1 + underSlash) :=
    Language.append_mem_mul ha (.inr hb)
  constructor
  · intro u w hu hw
    obtain ⟨a, ha, b, hb, rfl⟩ := Language.mem_mul.1 hu
    rw [List.append_assoc]
    rcases hb with rfl | hb
    · exact hadd ha (mem_underSlash.2 ⟨w, rfl, hw⟩)
    · exact hadd ha (append_mem_underSlash hb (by simpa using hw))
  · intro u w hu hrest hw
    obtain ⟨a, ha, b, hb, rfl⟩ := Language.mem_mul.1 hu
    rcases hb with rfl | hb
    · rw [List.append_nil] at hrest ⊢
      exact h ha hrest hw
    · rw [List.append_assoc]
      exact hadd ha (append_mem_underSlash hb hw)

/-! ## What a segment ends with -/

/-- Whether a set, given by its expression, takes a slash. -/
def takesSlash (set : Text) : Bool :=
  match Regex.Pattern.parse set with
  | .ok p => p.matchesStart ['/']
  | .error _ => false

/-- Whether the last of several items in a segment is a set that takes a slash. -/
def endsInSlash (segment : Text) : Bool :=
  match (itemsFrom 0 segment).map List.reverse with
  | some (.set e :: _ :: _) => takesSlash e
  | _ => false

theorem ne_nil_of_itemsFrom (hs : s ≠ []) (h : itemsFrom 0 s = some is) : is ≠ [] := by
  have hcons {i : Item} {r : Option (List Item)} (hr : r.map (i :: ·) = some is) : is ≠ [] := by
    obtain ⟨js, -, rfl⟩ := Option.map_eq_some_iff.1 hr
    exact List.cons_ne_nil i js
  unfold itemsFrom at h
  split at h
  · exact absurd rfl hs
  · contradiction
  · cases h
  · exact hcons h
  · split_ifs at h
    · exact hcons h
    · exact hcons h
    · split at h <;> exact hcons h
    · exact hcons h

/-- Items that have taken the slash of a folder, or nothing, can go on. By a star the rest of a name is
taken. -/
theorem goesOn_items (hne : is ≠ []) (hchar : ∀ c, .char c ∈ is → c ≠ '/')
    (hset : ∀ front e, is = front ++ [.set e] → front ≠ [] → takesSlash e = false)
    (hu : u ∈ itemsLanguage is) (hrest : FolderRest false u) (hw : '\n' ∉ w) :
    u ++ w ∈ itemsLanguage is * (1 + underSlash) := by
  obtain ⟨front, i, rfl⟩ : ∃ front i, is = front ++ [i] :=
    ⟨is.dropLast, is.getLast hne, (List.dropLast_append_getLast hne).symm⟩
  have hlanguage : itemsLanguage (front ++ [i]) = itemsLanguage front * i.language := by
    rw [itemsLanguage, List.map_append, List.prod_append, List.map_singleton, List.prod_singleton]
    rfl
  rw [hlanguage] at hu ⊢
  obtain ⟨a, ha, b, hb, rfl⟩ := Language.mem_mul.1 hu
  -- What takes a single character took the slash, so it is neither a character nor a question mark.
  have hlast {x : Char} (hx : b = [x]) : x = '/' ∧ a ≠ [] := by
    subst hx
    obtain hnil | ⟨v, hv, -, hslash⟩ := hrest
    · simp at hnil
    · obtain ⟨rfl, hx⟩ := List.append_inj' hv rfl
      exact ⟨List.head_eq_of_cons_eq hx, fun ha => Bool.false_ne_true (hslash ha)⟩
  cases i with
  | char c => exact absurd (hlast hb).1 (hchar c (by simp))
  | star =>
    have hname : b ++ w.takeWhile (· != '/') ∈ names := by
      intro x hx
      rcases List.mem_append.1 hx with hx | hx
      · exact hb x hx
      · exact List.mem_takeWhile_imp (p := (· != '/')) hx
    have hbehind : w.dropWhile (· != '/') ∈ 1 + underSlash := by
      cases hdrop : w.dropWhile (· != '/') with
      | nil => exact .inl rfl
      | cons c cs =>
        have hmem : ∀ x ∈ c :: cs, x ∈ w := fun x hx => (List.dropWhile_sublist _).mem (hdrop ▸ hx)
        have hc : c = '/' := by
          have hhead := List.head_dropWhile_not (l := w) (· != '/') (by simp [hdrop])
          simpa [hdrop] using hhead
        exact .inr (mem_underSlash.2 ⟨cs, by rw [hc], fun hmem' => hw (hmem _ (.tail c hmem'))⟩)
    have hsplit : a ++ b ++ w =
        a ++ (b ++ w.takeWhile (· != '/')) ++ w.dropWhile (· != '/') := by
      simp [List.takeWhile_append_dropWhile]
    rw [hsplit]
    exact Language.append_mem_mul (Language.append_mem_mul ha hname) hbehind
  | one =>
    obtain ⟨x, rfl, hx⟩ := hb
    simp [(hlast rfl).1] at hx
  | set e =>
    obtain ⟨x, p, rfl, hparse, hx⟩ := hb
    obtain ⟨hslash, hbegun⟩ := hlast rfl
    -- A set by itself cannot have taken the slash, for a name stands before it.
    have hfront : front ≠ [] := by
      rintro rfl
      exact hbegun ha
    have hfalse := hset front e rfl hfront
    rw [takesSlash, hparse, ← hslash] at hfalse
    exact absurd (hx.symm.trans hfalse) (by decide)

/-- A segment that cannot end with a slash lets through to all that lies below. -/
theorem deepens_segment (hs : s ≠ []) (hslash : '/' ∉ s) (hset : endsInSlash s = false) :
    Deepens false (segmentLanguage s * (1 + underSlash)) := by
  refine deepens_of_last fun {u w} hu hrest hw => ?_
  unfold segmentLanguage at hu ⊢
  split_ifs at hu ⊢
  · obtain ⟨hlength, hname⟩ := hu
    obtain rfl | ⟨v, rfl, -, -⟩ := hrest
    · cases hlength
    · exact absurd (hname '/' (by simp)) (by decide)
  · cases his : itemsFrom 0 s with
    | none =>
      rw [his] at hu
      cases hu
    | some is =>
      rw [his] at hu
      refine goesOn_items (ne_nil_of_itemsFrom hs his) (fun c hc => ?_) (fun front e he hfront => ?_)
        hu hrest hw
      · exact fun heq => hslash (heq ▸ standsIn_of_itemsFrom his _ hc)
      · obtain ⟨i, is', hreverse⟩ := List.exists_cons_of_ne_nil (List.reverse_ne_nil_iff.2 hfront)
        rw [endsInSlash, his, Option.map_some, he, List.reverse_append, List.reverse_singleton,
          List.singleton_append, hreverse] at hset
        exact hset

/-- The last segment decides what a glob lets through to. -/
theorem deepens_languageFrom {first : Bool} {ss : List Text} (hfirst : first = true → slash = false)
    (hlast : ss.getLast? = some s) (hs : s ≠ []) (hslash : '/' ∉ s) (hset : endsInSlash s = false) :
    Deepens slash (languageFrom first slash ss) := by
  induction ss generalizing first slash with
  | nil => cases hlast
  | cons t rest ih =>
    cases rest with
    | nil =>
      obtain rfl := Option.some.inj hlast
      simp only [languageFrom, List.isEmpty_nil, Bool.and_true, if_true, mul_one]
      split_ifs with _ hstart hcome
      · obtain rfl := hfirst hstart
        exact deepens_segment (s := ['*']) (by decide) (by decide) rfl
      · exact deepens_underSlash slash
      · rw [mul_assoc]
        refine (deepens_segment hs hslash hset).mul fun a ha _ => .inr ?_
        obtain rfl := ha
        rfl
      · rw [mul_assoc]
        refine (deepens_segment hs hslash hset).mul fun a ha _ => .inl ⟨ha, ?_⟩
        exact Bool.eq_false_iff.2 hcome
    | cons t' rest =>
      have hrest (slash : Bool) : Deepens slash (languageFrom false slash (t' :: rest)) :=
        ih (fun h => absurd h Bool.false_ne_true) hlast
      rw [languageFrom]
      simp only [List.isEmpty_cons, Bool.and_false, Bool.false_eq_true, if_false]
      split_ifs with _ hstart
      · refine (hrest false).mul fun a ha _ => ?_
        rcases ha with ha | ha
        · exact .inl ⟨ha, hfirst hstart⟩
        · obtain ⟨b, -, _, rfl, rfl⟩ := Language.mem_mul.1 ha
          exact .inr List.getLast?_concat
      all_goals exact (hrest true).mul_any _

/-! ## What a glob ends with -/

variable {ss : List Text} {t : Text}

theorem getLast?_collapseStars (ss : List Text) : (collapseStars ss).getLast? = ss.getLast? := by
  induction ss using collapseStars.induct with
  | case1 s t rest h ih =>
    rw [collapseStars, if_pos h, ih]
    rfl
  | case2 s t rest h ih =>
    rw [collapseStars, if_neg h, List.getLast?_cons, ih]
    rfl
  | case3 ss h => rw [collapseStars.eq_2 ss h]

/-- Where no double star is left, there was none. -/
theorem collapseStars_eq_self (h : doubleStar ∉ collapseStars ss) : collapseStars ss = ss := by
  induction ss using collapseStars.induct with
  | case1 s t rest hstars ih =>
    rw [collapseStars, if_pos hstars] at h
    rw [Bool.and_eq_true, decide_eq_true_eq, decide_eq_true_eq] at hstars
    refine absurd ?_ h
    rw [ih h, hstars.2]
    exact List.mem_cons_self
  | case2 s t rest hstars ih =>
    rw [collapseStars, if_neg hstars] at h ⊢
    rw [ih (fun hmem => h (List.mem_cons_of_mem _ hmem))]
  | case3 ss hshort => rw [collapseStars.eq_2 ss hshort]

theorem getLast?_anchored (h : anchored ss ≠ []) : (anchored ss).getLast? = ss.getLast? := by
  unfold anchored at h ⊢
  split at h
  · next rest =>
    obtain ⟨s, rest, rfl⟩ := List.exists_cons_of_ne_nil h
    rfl
  · split_ifs <;> rfl
  · split_ifs <;> rfl
  · rfl

/-- A closed row of segments ends with a double star, or as it did before. -/
theorem getLast?_closed (hne : ss ≠ []) (hone : ss ≠ [[]]) :
    ∃ s, (closed ss).getLast? = some s ∧ s ≠ [] ∧ (s = doubleStar ∨ ss.getLast? = some s) := by
  unfold closed
  split
  · exact ⟨doubleStar, List.getLast?_reverse, by decide, .inl rfl⟩
  · next hopen =>
    obtain ⟨front, s, rfl⟩ : ∃ front s, ss = front ++ [s] :=
      ⟨ss.dropLast, ss.getLast hne, (List.dropLast_append_getLast hne).symm⟩
    refine ⟨s, List.getLast?_concat, ?_, .inr List.getLast?_concat⟩
    rintro rfl
    rw [List.reverse_append, List.reverse_singleton, List.singleton_append] at hopen
    cases hfront : front.reverse with
    | nil => exact hone (by rw [List.reverse_eq_nil_iff.1 hfront]; rfl)
    | cons s rest => exact hopen s rest (by rw [hfront])

/-- The glob of a slash alone, or none at all, is the only one that has nothing to match. -/
theorem anchored_ne (ht : t ≠ []) (hslash : t ≠ ['/']) :
    anchored (collapseStars (Text.splitOn '/' t)) ≠ [] ∧
      anchored (collapseStars (Text.splitOn '/' t)) ≠ [[]] := by
  -- Segments that join to another text cannot be those of this one.
  have hsplit (ss : List Text) (hjoin : Text.joinWith ['/'] ss ≠ t) (hstars : doubleStar ∉ ss) :
      collapseStars (Text.splitOn '/' t) ≠ ss := fun heq => hjoin <| by
    rw [← heq, collapseStars_eq_self (heq ▸ hstars), Text.joinWith_splitOn]
  have hnil := hsplit [] (Ne.symm ht) (by decide)
  have hone := hsplit [[]] (Ne.symm ht) (by decide)
  have htwo := hsplit [[], []] (Ne.symm hslash) (by decide)
  generalize collapseStars (Text.splitOn '/' t) = ss at hnil hone htwo
  unfold anchored
  split
  · next rest => exact ⟨fun h => hone (h ▸ rfl), fun h => htwo (h ▸ rfl)⟩
  · split_ifs <;> simp_all [doubleStar]
  · split_ifs <;> simp
  · next hslash' hone' _ => exact ⟨hnil, hone⟩

/-- Unless the last of several items in its last segment is a set that takes a slash, a glob matches, with a
folder, all that lies below it. -/
theorem deepens_globLanguage (ht : t ≠ []) (hslash : t ≠ ['/'])
    (hset : endsInSlash ((Text.splitOn '/' t).getLast?.getD []) = false) :
    Deepens false (globLanguage t) := by
  simp only [globLanguage]
  split_ifs
  · exact (deepens_underSlash true).mul_any _
  · obtain ⟨hne, hone⟩ := anchored_ne ht hslash
    obtain ⟨s, hlast, hs, rfl | hs'⟩ := getLast?_closed hne hone
    · exact deepens_languageFrom (fun _ => rfl) hlast hs (by decide) rfl
    · rw [getLast?_anchored hne, getLast?_collapseStars] at hs'
      rw [hs', Option.getD_some] at hset
      exact deepens_languageFrom (fun _ => rfl) hlast hs
        (Text.not_mem_of_mem_splitOn s (List.mem_of_getLast? hs')) hset

/-! ## Rules and lists of them -/

/-- Whether the last of several items in the last segment of a glob is a set that takes a slash. -/
def endsTakingSlash (glob : Text) : Bool :=
  endsInSlash ((Text.splitOn '/' (Rule.trimmed glob)).getLast?.getD [])

/-- A glob that takes no paths back in and whose last segment, unless the glob is a comment, is a set alone
or ends with no set that takes a slash. -/
structure Plain (glob : Text) : Prop where
  positive : (Rule.trimmed glob).head? ≠ some '!'
  ending : (Rule.trimmed glob).head? ≠ some '#' → endsTakingSlash glob = false

variable {glob d : Text} {globs : List Text} {g : Rule} {gs : IgnoreList}

theorem Rule.compile?_spec (h : Rule.compile? glob = .ok (some g))
    (hplain : (Rule.trimmed glob).head? ≠ some '!') :
    g.negated = false ∧ Rule.trimmed glob ≠ [] ∧ Rule.trimmed glob ≠ ['/'] ∧
      (Rule.trimmed glob).head? ≠ some '#' ∧
      ∃ e, Rule.expression? (Rule.trimmed glob) = some e ∧ Regex.Pattern.parse e = .ok g.pattern := by
  simp only [Rule.compile?, decide_eq_false hplain] at h
  split at h
  · cases h
  · next hsome =>
    simp only [Bool.or_eq_true, not_or, List.isEmpty_iff, decide_eq_true_eq] at hsome
    split at h
    · cases h
    · next e he =>
      split at h
      · next p hp =>
        cases h
        exact ⟨rfl, hsome.1.1, hsome.2, hsome.1.2, e, he, hp⟩
      · cases h
      · cases h

/-- A rule that matches a folder, or the folder with a slash behind, matches all that lies below it. -/
theorem Rule.matchesStart_below (h : Rule.compile? glob = .ok (some g))
    (hplain : Plain glob) (hd : '\n' ∉ d) (hw : '\n' ∉ w) (hfolder : FolderRest false (d ++ ['/']))
    (hmatch : g.pattern.matchesStart d = true ∨ g.pattern.matchesStart (d ++ ['/']) = true) :
    g.pattern.matchesStart (d ++ '/' :: w) = true := by
  obtain ⟨-, hne, hslash, hsign, e, he, hparse⟩ := Rule.compile?_spec h hplain.positive
  have hdeepens := deepens_globLanguage hne hslash (hplain.ending hsign)
  have hiff {s : Text} (hs : '\n' ∉ s) := matchesStart_iff_mem_globLanguage (s := s) he hparse hs
  rw [hiff (by simp [hd, hw])]
  rcases hmatch with hmatch | hmatch
  · exact hdeepens.below ((hiff hd).1 hmatch) hw
  · have hmem := (hiff (by simp [hd])).1 hmatch
    simpa using hdeepens.behind hmem hfolder hw

theorem IgnoreList.exists_of_mem_compile (h : IgnoreList.compile globs = .ok gs) (hg : g ∈ gs) :
    ∃ glob ∈ globs, Rule.compile? glob = .ok (some g) := by
  induction globs generalizing gs with
  | nil =>
    cases h
    cases hg
  | cons glob globs ih =>
    rw [IgnoreList.compile] at h
    split at h
    · obtain ⟨glob', hmem, hcompile⟩ := ih h hg
      exact ⟨glob', .tail _ hmem, hcompile⟩
    · split at h
      · cases h
      · next rule? hrule =>
        split at h
        · cases h
        · next rules hrules =>
          cases h
          rcases List.mem_append.1 hg with hg | hg
          · obtain rfl := Option.mem_toList.1 hg
            exact ⟨glob, List.mem_cons_self, hrule⟩
          · obtain ⟨glob', hmem, hcompile⟩ := ih hrules hg
            exact ⟨glob', .tail _ hmem, hcompile⟩

/-- Where no rule takes paths back in, one that matches is enough. -/
theorem IgnoreList.decide_eq_true_iff (h : ∀ g ∈ gs, g.negated = false) (path : Text) (decided : Bool) :
    IgnoreList.decide path decided gs = true ↔
      decided = true ∨ ∃ g ∈ gs, g.pattern.matchesStart path = true := by
  induction gs generalizing decided with
  | nil => simp [IgnoreList.decide]
  | cons g gs ih =>
    rw [List.forall_mem_cons] at h
    rw [IgnoreList.decide, ih h.2, List.exists_mem_cons_iff]
    split <;> simp_all

/-- Whether a glob is none of those that match nothing and matches a path. -/
def Matches (glob path : Text) : Prop :=
  ∃ g, Rule.compile? glob = .ok (some g) ∧ g.pattern.matchesStart path = true

instance (glob path : Text) : Decidable (Matches glob path) :=
  decidable_of_iff ((Rule.compile? glob).toOption.join.any (·.pattern.matchesStart path) = true) <| by
    unfold Matches
    rcases Rule.compile? glob with e | _ | g <;> simp [Except.toOption]

theorem IgnoreList.mem_of_compile (h : IgnoreList.compile globs = .ok gs) (hmem : glob ∈ globs)
    (hg : Rule.compile? glob = .ok (some g)) : g ∈ gs := by
  induction globs generalizing gs with
  | nil => cases hmem
  | cons glob' globs ih =>
    rw [IgnoreList.compile] at h
    split at h
    · next hempty =>
      rcases List.mem_cons.1 hmem with rfl | hmem
      · rw [List.isEmpty_iff.1 hempty] at hg
        cases hg
      · exact ih h hmem
    · split at h
      · cases h
      · next rule? hrule =>
        split at h
        · cases h
        · next rules hrules =>
          cases h
          rcases List.mem_cons.1 hmem with rfl | hmem
          · cases hrule.symm.trans hg
            exact List.mem_cons_self
          · exact List.mem_append_right _ (ih hrules hmem)

/-- A list of globs that take nothing back in leaves out what one of them matches. -/
theorem IgnoreList.ignores_iff (h : IgnoreList.compile globs = .ok gs)
    (hpositive : ∀ glob ∈ globs, (Rule.trimmed glob).head? ≠ some '!') (path : Text) :
    gs.ignores path = true ↔ ∃ glob ∈ globs, Matches glob (IgnoreList.relative path) := by
  have hnegated : ∀ g ∈ gs, g.negated = false := fun g hg => by
    obtain ⟨glob, hmem, hcompile⟩ := IgnoreList.exists_of_mem_compile h hg
    exact (Rule.compile?_spec hcompile (hpositive glob hmem)).1
  rw [IgnoreList.ignores, IgnoreList.decide_eq_true_iff hnegated]
  constructor
  · rintro (hfalse | ⟨g, hg, hmatch⟩)
    · cases hfalse
    · obtain ⟨glob, hmem, hcompile⟩ := IgnoreList.exists_of_mem_compile h hg
      exact ⟨glob, hmem, g, hcompile, hmatch⟩
  · rintro ⟨glob, hmem, g, hcompile, hmatch⟩
    exact .inr ⟨g, IgnoreList.mem_of_compile h hmem hcompile, hmatch⟩

end ConfigCare.Glob

namespace ConfigCare.Text

/-- The names of a path are joined part by part. -/
theorem joinWith_append (sep : Text) {a b : List Text} (ha : a ≠ []) (hb : b ≠ []) :
    joinWith sep (a ++ b) = joinWith sep a ++ sep ++ joinWith sep b := by
  induction a with
  | nil => exact absurd rfl ha
  | cons p ps ih =>
    cases ps with
    | nil => exact joinWith_cons sep p hb
    | cons q qs =>
      rw [List.cons_append, joinWith_cons sep p (by simp), ih (by simp), joinWith_cons sep p (by simp)]
      simp only [List.append_assoc]

/-- The last part ends the text. -/
theorem suffix_joinWith (sep : Text) (ps : List Text) (p : Text) : p <:+ joinWith sep (ps ++ [p]) := by
  by_cases hps : ps = []
  · subst hps
    exact List.suffix_refl p
  · rw [joinWith_append sep hps (List.cons_ne_nil p [])]
    exact List.suffix_append _ p

theorem mem_joinWith {sep : Text} {ps : List Text} {c : Char} (h : c ∈ joinWith sep ps) :
    c ∈ sep ∨ ∃ p ∈ ps, c ∈ p := by
  induction ps with
  | nil => cases h
  | cons p ps ih =>
    by_cases hps : ps = []
    · subst hps
      exact .inr ⟨p, List.mem_cons_self, h⟩
    · rw [joinWith_cons sep p hps, List.append_assoc, List.mem_append, List.mem_append] at h
      rcases h with h | h | h
      · exact .inr ⟨p, List.mem_cons_self, h⟩
      · exact .inl h
      · exact (ih h).imp_right fun ⟨q, hq, hc⟩ => ⟨q, .tail _ hq, hc⟩

end ConfigCare.Text

namespace ConfigCare.Files

open Glob (Rule IgnoreList Plain FolderRest)

/-- What names a file or folder in a folder, on one line. -/
structure IsName (name : Text) : Prop where
  ne_nil : name ≠ []
  noSlash : '/' ∉ name
  notHere : name ≠ ['.']
  inLine : '\n' ∉ name

variable {s : Selection} {globs extensions : List Text} {front back names : List Text} {name t : Text}
  {es : List (Text × Entry)}

/-- No more than what a path begins with counts for the root. -/
theorem relative_append (h : IsName name) (t : Text) :
    IgnoreList.relative (name ++ t) = name ++ t := by
  obtain ⟨c, cs, rfl⟩ := List.exists_cons_of_ne_nil h.ne_nil
  unfold IgnoreList.relative
  split
  · next heq =>
    cases heq
    exact absurd List.mem_cons_self h.noSlash
  · next rest heq =>
    obtain ⟨rfl, hcs⟩ := List.cons.inj heq
    cases cs with
    | nil => exact absurd rfl h.notHere
    | cons d ds =>
      cases hcs
      exact absurd (.tail _ List.mem_cons_self) h.noSlash
  · rfl

/-- A path made of names is seen by globs as it is. -/
theorem relative_joinWith (hnames : ∀ n ∈ names, IsName n) (hne : names ≠ []) (t : Text) :
    IgnoreList.relative (Text.joinWith ['/'] names ++ t) = Text.joinWith ['/'] names ++ t := by
  obtain ⟨n, ns, rfl⟩ := List.exists_cons_of_ne_nil hne
  have hn := hnames n List.mem_cons_self
  by_cases hns : ns = []
  · subst hns
    exact relative_append hn t
  · rw [Text.joinWith_cons _ _ hns, List.append_assoc, List.append_assoc]
    exact relative_append hn _

theorem inLine_joinWith (hnames : ∀ n ∈ names, IsName n) : '\n' ∉ Text.joinWith ['/'] names := by
  intro hmem
  rcases Text.mem_joinWith hmem with h | ⟨n, hn, h⟩
  · simp at h
  · exact (hnames n hn).inLine h

/-- The slash behind a folder's path is the only one there. -/
theorem folderRest_joinWith (hnames : ∀ n ∈ names, IsName n) (hne : names ≠ []) :
    FolderRest false (Text.joinWith ['/'] names ++ ['/']) := by
  obtain ⟨front, n, rfl⟩ : ∃ front n, names = front ++ [n] :=
    ⟨names.dropLast, names.getLast hne, (List.dropLast_append_getLast hne).symm⟩
  have hn := hnames n (by simp)
  obtain ⟨v, hv⟩ := Text.suffix_joinWith ['/'] front n
  rw [← hv]
  refine .inr ⟨v ++ n, rfl, fun hend => ?_, fun hnil => ?_⟩
  · rw [List.getLast?_append_of_ne_nil v hn.ne_nil] at hend
    exact hn.noSlash (List.mem_of_getLast? hend)
  · exact absurd (List.append_eq_nil_iff.1 hnil).2 hn.ne_nil

theorem exists_of_ofGlobs {skipHidden : Bool}
    (hs : Selection.ofGlobs globs extensions skipHidden = .ok s) :
    ∃ gs, IgnoreList.compile globs = .ok gs ∧ ⟨gs, extensions, skipHidden⟩ = s := by
  rw [Selection.ofGlobs] at hs
  cases hgs : IgnoreList.compile globs with
  | error e =>
    rw [hgs] at hs
    cases hs
  | ok gs =>
    rw [hgs] at hs
    exact ⟨gs, rfl, Except.ok.inj hs⟩

/-- What is ignored as a folder is ignored with all that lies below. -/
theorem ignores_below {skipHidden : Bool} (hs : Selection.ofGlobs globs extensions skipHidden = .ok s)
    (hplain : ∀ glob ∈ globs, Plain glob)
    (hfront : front ≠ []) (hback : back ≠ []) (hnames : ∀ n ∈ front ++ back, IsName n)
    (h : s.ignores (Text.joinWith ['/'] front) true = true) :
    s.ignores (Text.joinWith ['/'] (front ++ back)) false = true := by
  obtain ⟨gs, hgs, rfl⟩ := exists_of_ofGlobs hs
  have hignores := IgnoreList.ignores_iff hgs fun glob hmem => (hplain glob hmem).positive
  rw [List.forall_mem_append] at hnames
  obtain ⟨glob, hmem, g, hcompile, hmatch⟩ : ∃ glob ∈ globs, ∃ g, Rule.compile? glob = .ok (some g) ∧
      (g.pattern.matchesStart (Text.joinWith ['/'] front) = true ∨
        g.pattern.matchesStart (Text.joinWith ['/'] front ++ ['/']) = true) := by
    simp only [Selection.ignores, Bool.true_and, Bool.or_eq_true, hignores] at h
    rw [relative_joinWith hnames.1 hfront ['/']] at h
    have hfolder := relative_joinWith hnames.1 hfront []
    rw [List.append_nil] at hfolder
    rw [hfolder] at h
    rcases h with ⟨glob, hmem, g, hcompile, hmatch⟩ | ⟨glob, hmem, g, hcompile, hmatch⟩
    · exact ⟨glob, hmem, g, hcompile, .inl hmatch⟩
    · exact ⟨glob, hmem, g, hcompile, .inr hmatch⟩
  have hbelow := Rule.matchesStart_below hcompile (hplain glob hmem) (inLine_joinWith hnames.1)
    (inLine_joinWith hnames.2) (folderRest_joinWith hnames.1 hfront) hmatch
  simp only [Selection.ignores, Bool.false_and, Bool.or_false]
  rw [hignores]
  refine ⟨glob, hmem, g, hcompile, ?_⟩
  rw [Text.joinWith_append _ hfront hback, List.append_assoc, relative_joinWith hnames.1 hfront]
  exact hbelow

/-- Where nothing is taken back in, no hidden folder is passed over and no glob ends its last segment, of
several items, with a set that takes a slash, a walk finds every file with an accepted extension that is not
ignored itself: what is ignored as a folder is ignored with all that lies below. -/
theorem walk_misses_nothing (hs : Selection.ofGlobs globs extensions false = .ok s)
    (hplain : ∀ glob ∈ globs, Plain glob)
    {tree : Entry} {place : List Text} (h : tree.Proper) (hfind : tree.find place = .ok (.folder es)) :
    (∀ front back, front ≠ [] → back ≠ [] → (∀ n ∈ front ++ back, IsName n) →
      s.ignores (Text.joinWith ['/'] front) true = true →
        s.ignores (Text.joinWith ['/'] (front ++ back)) false = true) ∧
    walk s place tree = .ok ((walkFolder s es).below place) ∧
    ∀ names, (∀ n ∈ names, IsName n) → (∃ content, tree.read (place ++ names) = .ok content) →
      s.ignores (Text.joinWith ['/'] names) false = false →
        s.accepts (names.getLast?.getD []) = true → names ∈ (walkFolder s es).files := by
  refine ⟨fun front back hfront hback hnames => ignores_below hs hplain hfront hback hnames,
    by rw [walk, hfind], fun names hnames ⟨content, hread⟩ hkept haccepts => ?_⟩
  obtain ⟨seen, hfiles, -, -, hmem⟩ := lists_walkFolder (s := s) (proper_find h hfind)
  rw [Entry.read_append hfind] at hread
  rw [hfiles, List.mem_filter, hmem]
  refine ⟨⟨names, content, rfl, hread, fun front name back heq hback => ?_, hkept⟩, haccepts⟩
  subst heq
  rw [List.append_cons] at hnames hkept
  have hfolder : s.ignores (Text.joinWith ['/'] (front ++ [name])) true = false :=
    Bool.eq_false_iff.2 fun hignored => by
      rw [ignores_below hs hplain (by simp) hback hnames hignored] at hkept
      cases hkept
  obtain ⟨gs, -, rfl⟩ := exists_of_ofGlobs hs
  rw [List.nil_append, Selection.descends, hfolder]
  rfl

/-- The folder is ignored for its slash, which the set takes; what lies in it the star takes. -/
theorem walk_misses_nothing_behind_set :
    let globs := [Text.lit "a[!b]*", Text.lit "c/[!b]", Text.lit "# a[!b]"]
    let es := [(Text.lit "a", Entry.folder [(Text.lit "x.json", .file [])]),
      (Text.lit "b", .folder [(Text.lit "x.json", .file [])])]
    let tree := Entry.folder es
    (∀ glob ∈ globs, Plain glob) ∧ tree.Proper ∧ tree.find [] = .ok (.folder es) ∧
      ∃ s, Selection.ofGlobs globs [Text.lit ".json"] false = .ok s ∧
        s.ignores (Text.lit "a") false = false ∧ s.ignores (Text.lit "a") true = true ∧
        s.ignores (Text.lit "a/x.json") false = true ∧
        [Text.lit "b", Text.lit "x.json"] ∈ (walkFolder s es).files := by
  intro globs es tree
  have hplain : ∀ glob ∈ globs, Plain glob := by
    intro glob hglob
    simp only [globs, List.mem_cons, List.not_mem_nil, or_false] at hglob
    rcases hglob with rfl | rfl | rfl
    · exact ⟨by decide +kernel, fun _ => by decide +kernel⟩
    · exact ⟨by decide +kernel, fun _ => by decide +kernel⟩
    · exact ⟨by decide +kernel, fun h => absurd (by decide +kernel) h⟩
  have hproper : tree.Proper := by
    refine .folder (by decide) fun e he => ?_
    rcases List.mem_pair.1 he with rfl | rfl <;>
      exact .folder (by decide) fun e he => List.mem_singleton.1 he ▸ .file _
  have htold : (Selection.ofGlobs globs [Text.lit ".json"] false).toOption.map (fun s =>
      (s.ignores (Text.lit "a") false, s.ignores (Text.lit "a") true,
        s.ignores (Text.lit "b/x.json") false, s.accepts (Text.lit "x.json"))) =
        some (false, true, false, true) := by decide +kernel
  cases hs : Selection.ofGlobs globs [Text.lit ".json"] false with
  | error e =>
    rw [hs] at htold
    cases htold
  | ok s =>
    rw [hs] at htold
    simp only [Except.toOption, Option.map_some, Option.some.injEq, Prod.mk.injEq] at htold
    obtain ⟨hfile, hfolder, hkept, haccepts⟩ := htold
    have hname (n : Text) (hn : n ∈ [Text.lit "a", Text.lit "b", Text.lit "x.json"]) : IsName n := by
      simp only [List.mem_cons, List.not_mem_nil, or_false] at hn
      rcases hn with rfl | rfl | rfl <;> exact ⟨by decide, by decide, by decide, by decide⟩
    have hfind : tree.find [] = .ok (.folder es) := rfl
    obtain ⟨hbelow, -, hfound⟩ := walk_misses_nothing hs hplain hproper hfind
    refine ⟨hplain, hproper, rfl, s, rfl, hfile, hfolder, ?_, ?_⟩
    · exact hbelow [Text.lit "a"] [Text.lit "x.json"] (by simp) (by simp)
        (fun n hn => hname n (by simp at hn ⊢; tauto)) hfolder
    · exact hfound [Text.lit "b", Text.lit "x.json"] (fun n hn => hname n (by simp at hn ⊢; tauto))
        ⟨[], rfl⟩ hkept haccepts

/-- A set at the end takes the slash of the folder alone, and white space hides an exclamation mark: a file
that is not ignored is not found. -/
theorem walk_misses_kept_file :
    let es := [(Text.lit "a", Entry.folder [(Text.lit "x.json", .file [])])]
    let Misses (globs : List Text) : Prop := (∀ glob ∈ globs, glob.head? ≠ some '!') ∧
      ∃ s, Selection.ofGlobs globs [Text.lit ".json"] false = .ok s ∧
        s.ignores (Text.lit "a") true = true ∧ s.ignores (Text.lit "a/x.json") false = false ∧
        s.accepts (Text.lit "x.json") = true ∧ walk s [] (.folder es) = .ok ⟨[], 0⟩
    Misses [Text.lit "a[!b]"] ∧ Misses [Text.lit "a", Text.lit " !a/x.json"] := by
  intro es Misses
  -- What the selection tells is computed; that there is one follows.
  have hmisses (globs : List Text) (hhead : ∀ glob ∈ globs, glob.head? ≠ some '!')
      (htold : (Selection.ofGlobs globs [Text.lit ".json"] false).toOption.map (fun s =>
        (s.ignores (Text.lit "a") true, s.ignores (Text.lit "a/x.json") false,
          s.accepts (Text.lit "x.json"), walkFolder s es)) = some (true, false, true, ⟨[], 0⟩)) :
      Misses globs := by
    refine ⟨hhead, ?_⟩
    cases hs : Selection.ofGlobs globs [Text.lit ".json"] false with
    | error e =>
      rw [hs] at htold
      cases htold
    | ok s =>
      rw [hs] at htold
      simp only [Except.toOption, Option.map_some, Option.some.injEq, Prod.mk.injEq] at htold
      obtain ⟨hpruned, hkept, haccepts, hwalked⟩ := htold
      refine ⟨s, rfl, hpruned, hkept, haccepts, ?_⟩
      change Except.ok ((walkFolder s es).below []) = _
      rw [hwalked]
      rfl
  exact ⟨hmisses _ (by decide +kernel) (by decide +kernel),
    hmisses _ (by decide +kernel) (by decide +kernel)⟩

end ConfigCare.Files
