import Mathlib.Data.List.TakeWhile
import ConfigCare.Proofs.Positions
import ConfigCare.Proofs.Redaction

/-! What the console shows of the line of a finding. The line has the secret of the finding masked and
nothing else, so it shows any other secret of the line that no occurrence of this one reaches into.
And the secret is looked for in the trimmed line as a whole: one that goes on behind the line is not
found there, and what stands of it on the line is shown. -/

namespace ConfigCare

namespace Text

theorem prefix_takeWhile (p : Char → Bool) {x y : Text} (h : x <+: y) :
    x.takeWhile p <+: y.takeWhile p := by
  obtain ⟨r, rfl⟩ := h
  rw [List.takeWhile_append]
  split
  · exact (List.takeWhile_prefix p).trans (List.prefix_append _ _)
  · exact List.prefix_refl _

/-- What is visible in a line stands in the trimmed line too, as far behind its margin. -/
theorem Placed.exists_lineAt {s : Text} {n : Nat} {before after : List Text} {head tail x v : Text}
    (h : Placed s n before head tail after) (hx : x ++ v <+: tail) (hv : trim v = v) (hne : v ≠ []) :
    ∃ a b, lineAt s n = a ++ (v ++ b) ∧
      head.length + x.length = ((head ++ tail).takeWhile isBlank).length + a.length := by
  obtain ⟨rest, rfl⟩ := hx
  obtain ⟨c, cs, rfl⟩ := List.exists_cons_of_ne_nil hne
  have hline : head ++ (x ++ c :: cs ++ rest) = head ++ x ++ (c :: cs ++ rest) := by simp
  refine ⟨trimStart (head ++ x), trimEnd rest, ?_, ?_⟩
  · rw [h.lineAt_eq, hline, trim_append_self hv hne]
  · have hmargin : (head ++ x ++ (c :: cs ++ rest)).takeWhile isBlank =
        (head ++ x).takeWhile isBlank := by
      rw [List.takeWhile_append]
      split
      · next hfull =>
        rw [List.cons_append, List.takeWhile_cons_of_neg (by simp [trim_cons hv]), List.append_nil,
          (List.takeWhile_prefix _).eq_of_length hfull]
      · rfl
    rw [hline, hmargin, trimStart, ← List.length_append, ← List.length_append,
      List.takeWhile_append_dropWhile]

end Text

namespace Secret

open Text
open Piece (shown)

/-- What a scan records of a match at an offset. -/
structure Finding.FoundAt (content : Text) (n : Nat) (f : Finding) : Prop where
  bound : n ≤ content.length
  position : position content n = ⟨f.line, f.column⟩
  nonempty : f.secret ≠ []
  secret : f.secret <+: content.drop n
  masked : f.masked = mask star f.secret
  context : f.context = lineAt content n

theorem exists_foundAt {rules : List CompiledRule} {content file : Text} {f : Finding}
    (hf : f ∈ scan rules content file) : ∃ n, f.FoundAt content n := by
  obtain ⟨r, -, s, hs, hcounts, rfl⟩ := mem_scan_iff.1 hf
  refine ⟨s.offset, ?_, rfl, ?_, Regex.Pattern.prefix_of_mem_spans hs, rfl, rfl⟩
  · exact Nat.le_of_add_right_le (Regex.Pattern.finish_le_of_mem_spans hs)
  · intro hnil
    have hempty : s.text = [] := hnil
    simp [CompiledRule.counts, hempty] at hcounts

namespace Finding

/-- What stands of a secret on the line where it begins, trimmed. -/
def opening (f : Finding) : Text := trim (f.secret.takeWhile (· ≠ '\n'))

/-- Whether a secret stands in one line, with nothing but what is visible at its ends. -/
def InLine (f : Finding) : Prop := '\n' ∉ f.secret ∧ trim f.secret = f.secret

/-- Whether two secrets of one line have no character of it in common. -/
def Apart (f g : Finding) : Prop :=
  f.column + f.secret.length ≤ g.column ∨ g.column + g.secret.length ≤ f.column

instance (f : Finding) : Decidable f.InLine := inferInstanceAs (Decidable (_ ∧ _))

instance (f g : Finding) : Decidable (f.Apart g) := inferInstanceAs (Decidable (_ ∨ _))

/-- The pieces of the line of a finding that the console prints. -/
def printed (f : Finding) : List Piece := abridge previewLimit.toNat (veil f.secret f.context)

namespace FoundAt

variable {content w : Text} {n : Nat} {f : Finding}

theorem preview_eq (h : f.FoundAt content n) : f.preview previewLimit = display f.printed := by
  have hlimit : previewLimit = (previewLimit.toNat : Int) := rfl
  have hsign : ¬ (previewLimit.toNat : Int) < 0 := by decide
  rw [printed, display_abridge, display_veil h.nonempty, ← h.masked, hlimit]
  simp only [preview, Int.ofNat_lt, if_neg hsign, Int.toNat_natCast]

/-- A text without marks is read in the preview where all of it is printed. -/
theorem occursIn_preview_iff (h : f.FoundAt content n) (hw : '*' ∉ w) :
    occursIn w (f.preview previewLimit) ↔ w.map shown <:+: f.printed := by
  rw [occursIn_iff, h.preview_eq]
  exact infix_display_iff ((filled_veil h.nonempty f.context).abridge _) hw

theorem occursIn_preview (h : f.FoundAt content n) (hw : '*' ∉ w) {a b : Text}
    (hcontext : f.context = a ++ (w ++ b))
    (hclear : Clear f.secret f.context a.length (a.length + w.length))
    (hlimit : a.length + w.length ≤ 80) : occursIn w (f.preview previewLimit) := by
  rw [hcontext] at hclear
  obtain ⟨front, back, hveil, hfront⟩ := exists_veil_of_clear h.nonempty hclear
  have hshort := length_display_le front
  rw [hfront] at hshort
  rw [h.occursIn_preview_iff hw, printed, hcontext]
  exact infix_abridge hveil (by simp only [previewLimit]; omega)

theorem notMem_secret (h : f.FoundAt content n) {c : Char} (hc : c ∉ content) : c ∉ f.secret :=
  fun hmem => hc (List.mem_of_mem_drop (h.secret.subset hmem))

theorem notMem_context (h : f.FoundAt content n) : '\n' ∉ f.context := by
  obtain ⟨before, head, tail, after, hplaced⟩ := exists_placed content n
  have hline : head ++ tail ∈ splitOn '\n' content := by
    rw [hplaced.lines]
    simp
  rw [h.context, hplaced.lineAt_eq]
  exact fun hmem => not_mem_of_mem_splitOn _ hline (mem_of_mem_trim hmem)

theorem exists_trim (h : f.FoundAt content n) :
    ∃ l, (splitOn '\n' content)[f.line - 1]? = some l ∧ f.context = trim l := by
  obtain ⟨l, hl, -, -, -, -, -, htrim⟩ := position_back h.bound
  rw [h.position] at hl
  exact ⟨l, hl, h.context.trans htrim⟩

/-- Findings on one line show the same line. -/
theorem context_eq {k : Nat} {g : Finding} (hf : f.FoundAt content n) (hg : g.FoundAt content k)
    (h : f.line = g.line) : f.context = g.context := by
  obtain ⟨l, hl, hcontext⟩ := hf.exists_trim
  obtain ⟨l', hl', hcontext'⟩ := hg.exists_trim
  rw [h, hl', Option.some.injEq] at hl
  rw [hcontext, hcontext', hl]

/-- What is visible of a secret on its first line stands in the line that is shown. -/
theorem exists_context (h : f.FoundAt content n) {x v : Text}
    (hx : x ++ v <+: f.secret.takeWhile (· ≠ '\n')) (hv : trim v = v) (hne : v ≠ []) :
    ∃ l a b, (splitOn '\n' content)[f.line - 1]? = some l ∧ f.context = a ++ (v ++ b) ∧
      f.column + x.length = (l.takeWhile isBlank).length + a.length + 1 := by
  obtain ⟨before, head, tail, after, hplaced⟩ := exists_placed content n
  have hposition := (hplaced.position_eq h.bound).symm.trans h.position
  rw [Position.mk.injEq] at hposition
  have htail : x ++ v <+: tail := hplaced.tail ▸ hx.trans (prefix_takeWhile _ h.secret)
  obtain ⟨a, b, hcontext, hlength⟩ := hplaced.exists_lineAt htail hv hne
  refine ⟨head ++ tail, a, b, ?_, h.context.trans hcontext, by omega⟩
  rw [hplaced.lines, ← hposition.1]
  simp

theorem exists_context_of_inLine (h : f.FoundAt content n) (hf : f.InLine) :
    ∃ l a b, (splitOn '\n' content)[f.line - 1]? = some l ∧ f.context = a ++ (f.secret ++ b) ∧
      f.column = (l.takeWhile isBlank).length + a.length + 1 := by
  have hwhole : f.secret.takeWhile (· ≠ '\n') = f.secret :=
    List.takeWhile_eq_self_iff.2 fun c hc => by simpa using ne_of_mem_of_not_mem hc hf.1
  exact h.exists_context (x := []) (hwhole.symm ▸ List.prefix_refl _) hf.2 h.nonempty

end FoundAt

end Finding

/-- What the console shows, for one finding, of the secret of another: it is read where nothing of it
is covered or cut off. So of two secrets apart in one line the other one is shown, if the masked one
occurs once and the line is not cut before. -/
theorem preview_shows_other_iff {rules : List CompiledRule} {content file : Text}
    (hstar : '*' ∉ content) {f g : Finding} (hf : f ∈ scan rules content file)
    (hg : g ∈ scan rules content file) :
    (occursIn g.secret (f.preview Finding.previewLimit) ↔ g.secret.map shown <:+: f.printed) ∧
    (∀ a b, f.context = a ++ (g.secret ++ b) →
      Clear f.secret f.context a.length (a.length + g.secret.length) →
      a.length + g.secret.length ≤ 80 → occursIn g.secret (f.preview Finding.previewLimit)) ∧
    (f.line = g.line → f.InLine → g.InLine → f.Apart g → Once f.secret f.context →
      g.column - 1 + g.secret.length ≤ 80 → occursIn g.secret (f.preview Finding.previewLimit)) := by
  obtain ⟨n, hn⟩ := exists_foundAt hf
  obtain ⟨k, hk⟩ := exists_foundAt hg
  have hmarks : '*' ∉ g.secret := hk.notMem_secret hstar
  refine ⟨hn.occursIn_preview_iff hmarks, fun a b => hn.occursIn_preview hmarks, ?_⟩
  intro hline hfline hgline hapart honce hlimit
  obtain ⟨l, a, b, hl, hcontext, hcolumn⟩ := hn.exists_context_of_inLine hfline
  obtain ⟨l', a', b', hl', hcontext', hcolumn'⟩ := hk.exists_context_of_inLine hgline
  obtain rfl : l = l' := Option.some.inj (hl.symm.trans (hline ▸ hl'))
  refine hn.occursIn_preview hmarks ((hn.context_eq hk hline).trans hcontext') ?_ (by omega)
  intro i hlength hi
  -- the only occurrence is the one that was found
  have hplace : f.secret <+: f.context.drop a.length := by
    rw [hcontext, List.drop_left]
    exact List.prefix_append _ _
  rw [honce i hlength a.length (by simp [hcontext]) hi hplace]
  unfold Finding.Apart at hapart
  omega

/-- A password is masked and the token behind it is not. -/
theorem preview_shows_other_of_once :
    let rules := (compile [⟨lit "Password", lit "pw=\\w+", none, []⟩,
      ⟨lit "Token", lit "t[0-9]+", none, []⟩]).toOption.getD []
    let content := lit "login:\n  pw=hunter22 t123456789 \n"
    ∃ f ∈ scan rules content (lit "a.env"), ∃ g ∈ scan rules content (lit "a.env"),
      f.line = g.line ∧ f.Apart g ∧ f.preview Finding.previewLimit = lit "pw=h***er22 t123456789" ∧
        g.secret = lit "t123456789" ∧ occursIn g.secret (f.preview Finding.previewLimit) := by
  intro rules content
  obtain ⟨f, hf, g, hg, hline, hfline, hgline, hapart, honce, hlimit, hpreview, hsecret⟩ :
      ∃ f ∈ scan rules content (lit "a.env"), ∃ g ∈ scan rules content (lit "a.env"),
        f.line = g.line ∧ f.InLine ∧ g.InLine ∧ f.Apart g ∧ Once f.secret f.context ∧
          g.column - 1 + g.secret.length ≤ 80 ∧
          f.preview Finding.previewLimit = lit "pw=h***er22 t123456789" ∧
          g.secret = lit "t123456789" := by
    decide +kernel
  exact ⟨f, hf, g, hg, hline, hapart, hpreview, hsecret,
    (preview_shows_other_iff (by decide) hf hg).2.2 hline hfline hgline hapart honce hlimit⟩

/-- Two rules of the registry that is built in find a secret each in one line, and what is shown for
one has the other in it. -/
theorem preview_shows_other_of_builtIn :
    let rules := (compile Registry.builtIn.rules).toOption.getD []
    let content := lit "password = \"hunter22\", secret = \"abcdefgh12\""
    '*' ∉ content ∧ ∃ f ∈ scan rules content (lit "app.env"), ∃ g ∈ scan rules content (lit "app.env"),
      f.line = g.line ∧ f.Apart g ∧ 8 < g.secret.length ∧
        occursIn g.secret (f.preview Finding.previewLimit) := by
  decide +kernel

/-- What the console shows of a secret itself. One that goes on behind its line is not masked, and
what stands of it on the line is shown like the rest of the line. -/
theorem preview_shows_opening_iff {rules : List CompiledRule} {content file : Text}
    (hstar : '*' ∉ content) {f : Finding} (hf : f ∈ scan rules content file) :
    (occursIn f.opening (f.preview Finding.previewLimit) ↔ f.opening.map shown <:+: f.printed) ∧
    (f.opening ≠ [] → ∃ a b, f.context = a ++ (f.opening ++ b) ∧
      (Clear f.secret f.context a.length (a.length + f.opening.length) →
        a.length + f.opening.length ≤ 80 → occursIn f.opening (f.preview Finding.previewLimit))) ∧
    ('\n' ∈ f.secret → f.preview Finding.previewLimit =
      if 80 < f.context.length then f.context.take 80 ++ lit "..." else f.context) ∧
    (f.opening = f.secret → 2 * visibleCount < f.secret.length → f.secret.getLast? ≠ some '.' →
      ¬ Overlapping f.secret → ¬ occursIn f.opening (f.preview Finding.previewLimit)) := by
  obtain ⟨n, hn⟩ := exists_foundAt hf
  have hmarks : '*' ∉ f.opening := fun h =>
    hn.notMem_secret hstar ((List.takeWhile_prefix _).subset (mem_of_mem_trim h))
  refine ⟨hn.occursIn_preview_iff hmarks, ?_, ?_, ?_⟩
  · intro hne
    obtain ⟨x, y, -, -, hopening⟩ := exists_margins (f.secret.takeWhile (· ≠ '\n'))
    have hprefix : x ++ f.opening <+: f.secret.takeWhile (· ≠ '\n') :=
      ⟨y, by rw [List.append_assoc]; exact hopening.symm⟩
    obtain ⟨-, a, b, -, hcontext, -⟩ := hn.exists_context hprefix (trim_trim _) hne
    exact ⟨a, b, hcontext, hn.occursIn_preview hmarks hcontext⟩
  · intro hbreak
    have hnone : ¬ f.secret <:+: f.context := fun h => hn.notMem_context (h.subset hbreak)
    rw [hn.preview_eq, Finding.printed, veil_eq_shown hnone, display_abridge, display_shown]
    rfl
  · intro hwhole hlong hlast hoverlap
    rw [hn.occursIn_preview_iff hmarks, hwhole]
    intro hprinted
    refine hoverlap (overlapping_of_infix_veil hlong
      (infix_of_infix_abridge (filled_veil hn.nonempty f.context) (hwhole ▸ hmarks) ?_ hprinted))
    rintro c hc rfl
    exact hlast hc

/-- A token in one line is masked, and of a secret that goes on in the next line what stands in the
first is shown. -/
theorem preview_shows_opening_of_line_feed :
    let rules := (compile [⟨lit "Token", lit "t[0-9]+", none, []⟩,
      ⟨lit "Quoted", lit "'[^']+'", none, []⟩]).toOption.getD []
    let content := lit "t123456789\nkey: 'first line\n  second'\n"
    ∃ f ∈ scan rules content (lit "a.env"), ∃ g ∈ scan rules content (lit "a.env"),
      f.opening = lit "t123456789" ∧ g.opening = lit "'first line" ∧
        ¬ occursIn f.opening (f.preview Finding.previewLimit) ∧
        g.preview Finding.previewLimit = lit "key: 'first line" := by
  intro rules content
  have hstar : '*' ∉ content := by decide
  obtain ⟨f, hf, hopening, hwhole, hlong, hlast, hoverlap⟩ :
      ∃ f ∈ scan rules content (lit "a.env"), f.opening = lit "t123456789" ∧
        f.opening = f.secret ∧ 2 * visibleCount < f.secret.length ∧
        f.secret.getLast? ≠ some '.' ∧ ¬ Overlapping f.secret := by
    decide +kernel
  obtain ⟨g, hg, hopening', hbreak, hcontext⟩ :
      ∃ g ∈ scan rules content (lit "a.env"), g.opening = lit "'first line" ∧ '\n' ∈ g.secret ∧
        g.context = lit "key: 'first line" := by
    decide +kernel
  obtain ⟨-, -, -, hmasked⟩ := preview_shows_opening_iff hstar hf
  obtain ⟨-, -, hshown, -⟩ := preview_shows_opening_iff hstar hg
  refine ⟨f, hf, g, hg, hopening, hopening', hmasked hwhole hlong hlast hoverlap, ?_⟩
  rw [hshown hbreak, hcontext]
  rfl

/-- The password rule that is built in goes on behind a line, and the console shows what stands of the
password on the first line. -/
theorem preview_shows_opening_of_builtIn :
    let rules := (compile Registry.builtIn.rules).toOption.getD []
    let content := lit "password = \"first line\nsecond line\""
    '*' ∉ content ∧ ∃ f ∈ scan rules content (lit "app.env"),
      8 < f.opening.length ∧ occursIn f.opening (f.preview Finding.previewLimit) := by
  decide +kernel

end Secret

end ConfigCare
