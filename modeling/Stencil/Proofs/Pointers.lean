import Stencil.Proofs.Partitions
import Stencil.Proofs.Remarks
import Stencil.Proofs.Unclosed
import Stencil.Report

/-!
# What diagnostics point at

A diagnostic carries a place and a token, and the template has this token at this place. There is
one exception. A single equals sign is put right before the check goes on, and when it is the last
token of its condition the equality in its place misses an operand: this diagnostic names two equals
signs where the template has one.

## Main definitions

* `Diagnostic.Quotes`: the template has the token of a diagnostic at its place.
* `Diagnostic.NamesEquality`: a diagnostic that names an equality where a single equals sign stands.
* `Diagnostic.Underlines`: the bytes that a diagnostic is about are its token.
* `Diagnostic.Points`: what a diagnostic points at behind a place of a source.

## Main results

* `Condition.points_compile`, `Template.points_readTag`: diagnostics of conditions and of tags.
* `Program.diagnostics_quote_template`: which diagnostics quote the template.
-/

namespace Stencil

open Text (Cursor)

namespace Diagnostic

/-- The template has the token of a diagnostic at its place. -/
def Quotes (source : List Char) (n : Diagnostic) : Prop :=
  ∃ before after, source = before ++ (n.token.toList ++ after) ∧
    n.offset = Text.byteLength before

/-- A diagnostic that names an equality where a single equals sign stands, the last token of its
condition. -/
structure NamesEquality (right source : List Char) (n : Diagnostic) : Prop where
  fault : n.fault = .missingOperand
  token : n.token = "=="
  place : ∃ before bs after, source = before ++ '=' :: (bs ++ (right ++ after)) ∧
    n.offset = Text.byteLength before ∧ (∀ b ∈ bs, Text.isBlank b = true) ∧
      (bs ++ (right ++ after)).head? ≠ some '='

/-- The bytes that a diagnostic is about are its token. -/
def Underlines (template : String) (n : Diagnostic) : Prop :=
  Text.slice template.toList (n.span template).start (n.span template).stop = .ok n.token.toList

/-- What a diagnostic points at behind a place of a source: its token, or a single equals sign that
it takes for an equality. -/
inductive Points (right : List Char) (c : Cursor) (n : Diagnostic) : Prop
  | token {place : Cursor} (h : c.Leads place) (hoffset : n.offset = place.offset)
      (htoken : n.token.toList <+: place.rest)
  | equality {place : Cursor} {bs after : List Char} (h : c.Leads place)
      (hoffset : n.offset = place.offset) (hfault : n.fault = .missingOperand)
      (htoken : n.token = "==") (hrest : place.rest = '=' :: (bs ++ (right ++ after)))
      (hb : ∀ b ∈ bs, Text.isBlank b = true) (hsingle : (bs ++ (right ++ after)).head? ≠ some '=')

variable {right source : List Char} {c c' place : Cursor} {n : Diagnostic}

theorem Points.of_leads (hc : c'.Leads c) (h : Points right c n) : Points right c' n := by
  cases h with
  | token h hoffset htoken => exact .token (hc.trans h) hoffset htoken
  | equality h hoffset hfault htoken hrest hb hsingle =>
    exact .equality (hc.trans h) hoffset hfault htoken hrest hb hsingle

theorem points_of_empty (h : c.Leads place) (hoffset : n.offset = place.offset)
    (htoken : n.token = "") : Points right c n :=
  .token h hoffset (by rw [htoken]; exact List.nil_prefix)

theorem points_locate (f : Fault) (h : c.Leads place) : Points right c (f.locate place.offset) :=
  points_of_empty h rfl rfl

theorem points_halt (f : Fault) (h : c.Leads place) :
    ∀ n ∈ Log.halt [] (f.locate place.offset), Points right c n :=
  List.forall_mem_singleton.mpr (points_of_empty h rfl rfl)

/-- What points into a template quotes it or names an equality. -/
theorem Points.quotes_or (h : Points right (.ofText source) n) :
    n.Quotes source ∨ n.NamesEquality right source := by
  cases h with
  | token h hoffset htoken =>
    obtain ⟨before, hsource, hplace⟩ := Cursor.leads_ofText_iff.mp h
    obtain ⟨after, hafter⟩ := htoken
    exact Or.inl ⟨before, after, by rw [hafter, hsource], hoffset.trans hplace⟩
  | @equality place bs after h hoffset hfault htoken hrest hb hsingle =>
    obtain ⟨before, hsource, hplace⟩ := Cursor.leads_ofText_iff.mp h
    exact Or.inr ⟨hfault, htoken, before, bs, after, by rw [← hrest, hsource],
      hoffset.trans hplace, hb, hsingle⟩

/-- A diagnostic that names an equality does not quote the template. -/
theorem NamesEquality.not_quotes (h : n.NamesEquality right source) : ¬ n.Quotes source := by
  rintro ⟨before', after', hsource', hoffset'⟩
  obtain ⟨before, bs, after, hsource, hoffset, -, hsingle⟩ := h.place
  have hcut := Text.cut_append before ('=' :: (bs ++ (right ++ after)))
  rw [← hsource, ← hoffset, hoffset', hsource', Text.cut_append, h.token] at hcut
  obtain ⟨-, hrest⟩ := Prod.mk.inj (Except.ok.inj hcut)
  obtain ⟨-, htail⟩ := List.cons.inj hrest
  exact hsingle (by rw [← htail]; rfl)

/-- The span of a diagnostic that quotes the template is its token. -/
theorem Quotes.underlines {template : String} (h : n.Quotes template.toList)
    (hne : n.token ≠ "") : n.Underlines template := by
  obtain ⟨before, after, hsource, hoffset⟩ := h
  have hpos : 0 < Text.byteLength n.token.toList := by
    refine Text.byteLength_pos fun hnil ↦ hne ?_
    rw [← String.ofList_toList (s := n.token), hnil]
  have htotal : Text.byteLength template.toList =
      n.offset + (Text.byteLength n.token.toList + Text.byteLength after) := by
    rw [hsource, hoffset, Text.byteLength_append, Text.byteLength_append]
  have hstart : (n.span template).start = n.offset := by
    simp only [span, Text.utf8ByteSize_eq]
    omega
  have hstop : (n.span template).stop = n.offset + Text.byteLength n.token.toList := by
    simp only [span, Text.utf8ByteSize_eq]
    omega
  rw [Underlines, hstart, hstop, hsource, hoffset]
  exact Text.slice_append _ _ _

end Diagnostic

open Diagnostic (Points)

variable {right : List Char} {c place : Cursor} {t : Token} {n : Diagnostic}

/-! ### Tokens -/

namespace Token

/-- A diagnostic about a token of a tag points at this token. -/
theorem points_of_mem_scan (hright : right ≠ []) (ht : t ∈ (scan right c).1)
    (hoffset : n.offset = t.offset) (htoken : n.token = t.symbol) : Points right c n := by
  obtain ⟨-, place, hleads, hplace, htext⟩ := (row_scan hright c).stands t ht
  refine .token hleads (hoffset.trans hplace) ?_
  rwa [htoken, symbol, String.toList_ofList]

theorem exists_leads_stop (hright : right ≠ []) (ht : t ∈ (scan right c).1) :
    ∃ place, c.Leads place ∧ t.stop = place.offset := by
  obtain ⟨-, place, hleads, hplace, htext⟩ := (row_scan hright c).stands t ht
  refine ⟨place.advance t.text.length, hleads.trans (place.leads_advance _), ?_⟩
  rw [(Cursor.advance_of_prefix htext).2, stop, hplace]

/-- In front of the right delimiter a run finds its last other token. -/
theorem Scans.before_close {next : Cursor} {before : List Token} {u : Token}
    (h : Scans right c (before ++ [t, u]) next) (hkind : u.kind = .close) :
    ∃ c', c.Leads c' ∧ Found right c'.skipBlanks t ∧
      right <+: (c'.skipBlanks.advance t.text.length).skipBlanks.rest := by
  have hclose {c next : Cursor} (h : Scans right c [u] next) : right <+: c.skipBlanks.rest := by
    have hfound : Found right c.skipBlanks u := by cases h <;> assumption
    rw [← hfound.text_of_close hkind]
    exact hfound.begins
  generalize hts : before ++ [t, u] = ts at h
  induction h generalizing before with
  | finish => simp at hts
  | close => simpa using congrArg List.length hts
  | @token c next v ts hne hv hkind' hr ih =>
    cases before with
    | nil =>
      obtain ⟨rfl, rfl⟩ := List.cons.inj hts
      exact ⟨c, .refl c, hv, hclose hr⟩
    | cons w before =>
      obtain ⟨rfl, htail⟩ := List.cons.inj hts
      obtain ⟨c', hleads, hfound⟩ := ih htail
      exact ⟨c', (c.leads_skipBlanks.trans (Cursor.leads_advance _ _)).trans hleads, hfound⟩

/-- A single equals sign is read where no second one stands behind it. -/
theorem Found.single_of_assign (h : Found right place t) (hkind : t.kind = .assign) :
    t.text = ['='] ∧ ∃ cs, place.rest = '=' :: cs ∧ cs.head? ≠ some '=' := by
  obtain ⟨l, -, hl, rfl⟩ := h.exists_lexeme (by simp [hkind]) (by simp [hkind])
  dsimp only at hkind ⊢
  have htext := take_of_known?_assign hl hkind
  have hsymbol := symbol?_of_known? hl (by rw [hkind]; decide)
  cases hrest : place.rest with
  | nil => simp [hrest] at htext
  | cons a cs =>
    rw [hrest] at htext hsymbol
    obtain ⟨k, hk⟩ := Nat.exists_eq_succ_of_ne_zero (symbol?_pos hsymbol).ne'
    rw [hk, List.take_succ_cons] at htext
    obtain ⟨rfl, htake⟩ := List.cons.inj htext
    refine ⟨by rw [hk, List.take_succ_cons, htake], cs, rfl, fun hhead ↦ ?_⟩
    obtain ⟨ds, rfl⟩ : ∃ ds, cs = '=' :: ds := by
      cases cs with
      | nil => simp at hhead
      | cons d ds => exact ⟨ds, by simpa using hhead⟩
    -- the longest symbol at this place has two signs at least
    have hle := length_le_of_symbolKind? (n := 2) hsymbol rfl
      (show (symbolKind? "==").isSome by decide)
    obtain ⟨m, rfl⟩ : ∃ m, k = m + 1 := ⟨k - 1, by omega⟩
    simp at htake

end Token

/-! ### Conditions -/

namespace Condition

/-- A single equals sign at the end of a condition. -/
theorem points_equality {before : List Token} (hbody : bodyAt right c = before ++ [t])
    (hclosed : ∃ u ∈ (Token.scan right c).1, u.kind = .close) (hkind : t.kind = .assign) :
    Points right c (fault .missingOperand (equality t)) := by
  obtain ⟨u, hu, hscan⟩ := Token.scan_eq_append_close hclosed
  have htokens : (Token.scan right c).1 = before ++ [t, u] :=
    calc (Token.scan right c).1
      _ = bodyAt right c ++ [u] := hscan
      _ = before ++ [t, u] := by rw [hbody, List.append_assoc, List.singleton_append]
  have hscans := Token.scans_scan right c
  rw [htokens] at hscans
  obtain ⟨c', hleads, hfound, after, hafter⟩ := hscans.before_close hu
  obtain ⟨htext, cs, hrest, hsingle⟩ := hfound.single_of_assign hkind
  obtain ⟨bs, hb, hblanks, -⟩ := (c'.skipBlanks.advance t.text.length).exists_skipBlanks
  rw [Cursor.rest_advance, htext, hrest, List.length_singleton, List.drop_succ_cons,
    List.drop_zero] at hblanks
  rw [htext, List.length_singleton] at hafter
  rw [← hafter] at hblanks
  rw [hblanks] at hrest hsingle
  exact .equality (hleads.trans c'.leads_skipBlanks) hfound.offset_eq rfl rfl hrest hb hsingle

/-- Whatever is recorded about a condition points into it. -/
theorem points_compile (hright : right ≠ []) (c : Cursor) :
    ∀ n ∈ (compile right c).2, Points right c n := by
  have hmem {t : Token} (ht : t ∈ bodyAt right c) : t ∈ (Token.scan right c).1 :=
    (List.takeWhile_sublist _).subset ht
  intro n hn
  cases noted_compile right c n hn with
  | whole hf hfault htoken hoffset =>
    obtain ⟨place, hleads, hplace⟩ : ∃ place, c.Leads place ∧ n.offset = place.offset := by
      rcases hoffset with hoffset | hoffset
      · rw [bodyEnd] at hoffset
        cases hlast : (bodyAt right c).getLast? with
        | none => exact ⟨c, .refl c, by simpa [hlast] using hoffset⟩
        | some t =>
          obtain ⟨place, hleads, hstop⟩ :=
            Token.exists_leads_stop hright (hmem (List.mem_of_getLast? hlast))
          exact ⟨place, hleads, by simpa [hlast, hstop] using hoffset⟩
      · exact ⟨c, .refl c, hoffset⟩
    exact Diagnostic.points_of_empty hleads hplace htoken
  | @remark before after t _ hclosed hbody hremark =>
    have ht : t ∈ (Token.scan right c).1 := hmem (by rw [hbody]; simp)
    cases hremark with
    | fault | arguments => exact Token.points_of_mem_scan hright ht rfl rfl
    | equality hkind hlast =>
      obtain rfl := List.isEmpty_iff.mp hlast
      exact points_equality hbody hclosed hkind
  | deep ht => exact Token.points_of_mem_scan hright (hmem ht) rfl rfl

end Condition

/-! ### Tags -/

namespace Template

variable {b : Blocks} {offset : Nat}

theorem points_readVariable :
    ∀ n ∈ (readVariable right b c).notes, Points right c n := by
  unfold readVariable
  split
  · exact List.forall_mem_nil _
  split
  · exact List.forall_mem_nil _
  · refine List.forall_mem_singleton.mpr (.token (.refl c) rfl ?_)
    rw [Diagnostic.halting, Fault.about, String.toList_ofList]
    exact List.take_prefix _ _

theorem points_readIf (hright : right ≠ []) :
    ∀ n ∈ (readIf right b offset c).notes, Points right c n := by
  have hcompile := Condition.points_compile hright c
  unfold readIf
  split <;> rename_i heq <;> rwa [heq] at hcompile

theorem points_readElseIf (hright : right ≠ []) :
    ∀ n ∈ (readElseIf right b c).notes, Points right c n := by
  have hcompile := Condition.points_compile hright c
  unfold readElseIf
  split
  · exact Diagnostic.points_halt _ (.refl c)
  rename_i frame _
  have hlate : ∀ n ∈ (if frame.hasElse then [Fault.secondElse.locate c.offset] else []),
      Points right c n := by
    split
    · exact List.forall_mem_singleton.mpr (Diagnostic.points_locate _ (.refl c))
    · exact List.forall_mem_nil _
  dsimp only
  split <;> rename_i heq <;> rw [heq] at hcompile <;>
    exact List.forall_mem_append.mpr ⟨hlate, hcompile⟩

theorem points_readElse : ∀ n ∈ (readElse right b c).notes, Points right c n := by
  have hrefuse (f : Fault) : ∀ n ∈ (refuse b (f.locate c.offset)).notes, Points right c n :=
    List.forall_mem_singleton.mpr (Diagnostic.points_locate f (.refl c))
  unfold readElse
  split
  · exact Diagnostic.points_halt _ (.refl c)
  split
  · exact hrefuse _
  split
  · exact hrefuse _
  · exact List.forall_mem_nil _

theorem points_readEndIf : ∀ n ∈ (readEndIf right b c).notes, Points right c n := by
  unfold readEndIf
  split
  · exact Diagnostic.points_halt _ (.refl c)
  split
  · exact List.forall_mem_singleton.mpr (Diagnostic.points_locate _ (.refl c))
  · exact List.forall_mem_nil _

/-- Whatever is recorded while a tag is tried points behind its left delimiter. -/
theorem points_readTag (hright : right ≠ []) (b : Blocks) (offset : Nat) (c : Cursor) :
    ∀ n ∈ (readTag right b offset c).notes, Points right c n := by
  unfold readTag
  split
  · exact points_readVariable
  unfold readNamed
  split
  · exact List.forall_mem_nil _
  rename_i k _
  have hname {log : Log} (h : ∀ n ∈ log, Points right (c.advance k) n) :
      ∀ n ∈ log, Points right c n :=
    fun n hn ↦ (h n hn).of_leads (c.leads_advance k)
  dsimp only
  split
  · exact hname (points_readIf hright)
  split
  · exact hname (points_readElseIf hright)
  split
  · exact hname points_readElse
  split
  · exact hname points_readEndIf
  · exact List.forall_mem_nil _

/-- Whatever is recorded while the tags of a template are tried points into the template. -/
theorem points_notesOf (d : Delimiters) (template : List Char) :
    ∀ n ∈ notesOf (tried d template), Points d.right.toList (.ofText template) n := by
  intro n hn
  obtain ⟨v, hv, hn⟩ := List.mem_flatMap.mp hn
  obtain ⟨hleads, s, m, hmeets⟩ := (runs_scan d template).places.2 v hv
  rw [hmeets.trial] at hn
  exact (points_readTag (right_ne_nil d) _ _ _ n hn).of_leads (hleads.trans (v.leads d))

end Template

open Template

namespace Program

variable {d : Delimiters} {template : String}

/-- Every diagnostic of a template points into it. -/
theorem points_diagnostics :
    ∀ n ∈ diagnostics d template, Points d.right.toList (.ofText template.toList) n := by
  intro n hn
  cases hscan : scan d template.toList with
  | ok s =>
    rw [(diagnostics_of_ok hscan).1] at hn
    rcases List.mem_append.mp hn with hn | hn
    · exact points_notesOf d _ n hn
    · obtain ⟨o, ho, rfl⟩ := List.mem_map.mp hn
      rcases mem_foldl_openAfter ho with hnil | ⟨e, he⟩
      · simp at hnil
      · obtain ⟨before, name, after, hsource, rfl, -⟩ := opening_of_mem_tags he
        exact Diagnostic.points_locate _ (Cursor.leads_ofText_iff.mpr
          ⟨before, hsource, rfl⟩ : (Cursor.ofText template.toList).Leads
            ⟨Text.byteLength before, d.left.toList ++ (name ++ after)⟩)
  | error log =>
    rw [diagnostics_eq, recorded, hscan, List.append_nil] at hn
    exact points_notesOf d _ n hn

/-- Every diagnostic of a template has its token at its place in the template, and its span is this
token, with one exception: a single equals sign that is the last token of its condition. There it is
said that an operand is missing behind two equals signs, and the template has no two of them. -/
theorem diagnostics_quote_template (d : Delimiters) (template : String) :
    ∀ n ∈ diagnostics d template,
      (n.Quotes template.toList ↔ ¬ n.NamesEquality d.right.toList template.toList) ∧
        (n.Quotes template.toList → n.token ≠ "" → n.Underlines template) := by
  intro n hn
  refine ⟨⟨fun hquotes hnames ↦ hnames.not_quotes hquotes, fun hnames ↦ ?_⟩,
    fun hquotes ↦ hquotes.underlines⟩
  exact (points_diagnostics n hn).quotes_or.resolve_right hnames

/-- A variable that is not closed, behind a condition that ends in a single equals sign: the bytes
of its diagnostic are its path. -/
theorem diagnostics_quote_template_variable :
    ∃ n ∈ diagnostics .standard "é\x7bif %a =\x7d\x7b%b.c \x7d",
      n.token = "%b.c" ∧ n.offset = 12 ∧ n.Underlines "é\x7bif %a =\x7d\x7b%b.c \x7d" := by
  have hmap : (recorded .standard "é\x7bif %a =\x7d\x7b%b.c \x7d".toList).map
      (fun n ↦ (n.offset, n.token)) = [(9, "="), (9, "=="), (12, "%b.c")] := by
    decide +kernel
  have hmem : (12, "%b.c") ∈ (diagnostics .standard "é\x7bif %a =\x7d\x7b%b.c \x7d").map
      (fun n ↦ (n.offset, n.token)) := by
    rw [diagnostics_eq, hmap]
    simp
  obtain ⟨n, hn, hfields⟩ := List.mem_map.mp hmem
  obtain ⟨hoffset, htoken⟩ := Prod.mk.inj hfields
  obtain ⟨hquotes, hunderlines⟩ := diagnostics_quote_template _ _ n hn
  refine ⟨n, hn, htoken, hoffset, hunderlines (hquotes.mpr fun hnames ↦ ?_) ?_⟩
  · have hequality := hnames.token
    rw [htoken] at hequality
    exact absurd hequality (by decide)
  · rw [htoken]
    decide

/-- A single equals sign at the end of a condition: an operand is missed behind two equals signs,
and the template has only one there. -/
theorem diagnostics_quote_template_fails :
    ∃ n ∈ diagnostics .standard "\x7bif %a =\x7d",
      n.token ≠ "" ∧ ¬ n.Quotes "\x7bif %a =\x7d".toList := by
  have hmap : (recorded .standard "\x7bif %a =\x7d".toList).map
      (fun n ↦ (n.fault, n.offset, n.token)) =
        [(.singleEquals, 7, "="), (.missingOperand, 7, "==")] := by
    decide +kernel
  obtain ⟨m, ns, hrecorded, -, hns⟩ := List.map_eq_cons_iff.mp hmap
  obtain ⟨n, ns, rfl, hn, -⟩ := List.map_eq_cons_iff.mp hns
  obtain ⟨hfault, hoffset, htoken⟩ : n.fault = .missingOperand ∧ n.offset = 7 ∧ n.token = "==" := by
    simpa using hn
  have hnames : n.NamesEquality ['\x7d'] "\x7bif %a =\x7d".toList :=
    ⟨hfault, htoken, "\x7bif %a ".toList, [], [], rfl, hoffset, List.forall_mem_nil _, by decide⟩
  refine ⟨n, ?_, by rw [htoken]; decide, hnames.not_quotes⟩
  rw [diagnostics_eq, hrecorded]
  simp

end Program

end Stencil
