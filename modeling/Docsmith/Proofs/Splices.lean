import Docsmith.Proofs.Erasure
import Docsmith.Proofs.Spacing

/-!
# A splice behind a mark

A quote or a tag makes one form of the next one.  Behind it a splice that hands over several
forms leaves only the first of them, and the others are in no form that is read.  So it does what
its items would do in its place just if it has one.
-/

namespace Docsmith

open Reader Grammar

inductive LeadMark where
  | quote (q : QuoteMark)
  | tag (name : Text)
deriving DecidableEq, Repr

namespace LeadMark

def applied : LeadMark → Form → Form
  | .quote q, f => .coll .list 0 [Form.ofName q.symbolName, f]
  | .tag _, f => f

def lexeme : LeadMark → Lexeme
  | .quote q => .quote q
  | .tag name => .atom (CodePoint.ofChar '#' :: name)

def wait : LeadMark → Wait
  | .quote q => .quote q
  | .tag _ => .tag

/-- A mark with what may stand between it and its form.  A quote may stand right before it. -/
inductive Opens : LeadMark → Text → Prop
  | quote (q : QuoteMark) : Opens (.quote q) q.text
  | quoteApart (q : QuoteMark) {s : Text} (apart : Separator s) : Opens (.quote q) (q.text ++ s)
  | tag {name s : Text} (named : Form.TagName name) (apart : Separator s) :
      Opens (.tag name) (CodePoint.ofChar '#' :: (name ++ s))

/-! ## Cutting off the mark -/

theorem head?_ne_of_separated {u : Text} (h : Piece.Separated u) :
    u.head? ≠ some (CodePoint.ofChar '@') :=
  fun hhead => absurd (h _ hhead) (by decide)

theorem next?_quote (q : QuoteMark) {u : Text} (hu : u.head? ≠ some (CodePoint.ofChar '@')) :
    Piece.next? (q.text ++ u) = some (.lexeme (.quote q), u) := by
  cases q with
  | quote | backquote | deref => exact Piece.next?_of_begins (.single rfl rfl)
  | unquote =>
      refine Piece.next?_of_begins (.single rfl ?_)
      cases u with
      | nil => rfl
      | cons c u =>
          have hc : CodePoint.ofChar '@' ≠ c := fun h => hu (h ▸ rfl)
          simp [Text.ofString, Text.after?, hc]
  | unquoteSplicing => exact Piece.next?_of_begins (.splicing u)
  | var =>
      have hsigned : (Text.ofString "'", Lexeme.quote .var) ∈ Piece.signed := by decide
      exact Piece.next?_of_begins (.signed u hsigned)

theorem lex_quote (q : QuoteMark) {u : Text} (hu : u.head? ≠ some (CodePoint.ofChar '@')) :
    Token.lex (q.text ++ u) = (⟨.quote q, 0⟩ :: (Token.lex u).1, (Token.lex u).2) :=
  Token.lex_lexeme (next?_quote q hu)

theorem isCut_tag {name : Text} (named : Form.TagName name) :
    Piece.IsCut (.atom (CodePoint.ofChar '#' :: name)) :=
  ⟨_, [], (Token.leads_signAtom named.atoms named.unmarked).cut [] Piece.ends_nil⟩

theorem Opens.lex {m : LeadMark} {lead : Text} (h : m.Opens lead) {u : Text}
    (hu : u.head? ≠ some (CodePoint.ofChar '@')) :
    Token.lex (lead ++ u) = (⟨m.lexeme, 0⟩ :: (Token.lex u).1, (Token.lex u).2) := by
  cases h with
  | quote q => exact lex_quote q hu
  | quoteApart q apart =>
      rw [List.append_assoc, lex_quote q (head?_ne_of_separated (apart.separated u)),
        Token.lex_separator apart]
      rfl
  | tag named apart =>
      have hcut := Token.lex_cut (isCut_tag named) (apart.separated u)
      rw [Token.lex_separator apart] at hcut
      rw [List.cons_append, List.append_assoc]
      exact hcut

theorem Opens.step {m : LeadMark} {lead : Text} (h : m.Opens lead) (features : List Text)
    (s : State) : Reader.step features s ⟨m.lexeme, 0⟩ = .ok (push s (.await m.wait 0)) := by
  cases h with
  | quote | quoteApart => rfl
  | tag named => exact named.step features s

theorem deliver_first (m : LeadMark) (top : List Form) (stack : List Frame) (f : Form)
    (fs : List Form) :
    deliver top (.await m.wait 0 :: stack) (f :: fs) = deliver top stack [m.applied f] := by
  cases m <;> rfl

end LeadMark

namespace Form

/-! ## Items in a row -/

theorem Reads.head?_ne {f g : Form} {ts : List Token} (h : Reads f g ts) :
    f.render.head? ≠ some (CodePoint.ofChar '@') := by
  intro hhead
  obtain ⟨r, hr⟩ := List.head?_eq_some_iff.1 hhead
  have hnext : Piece.next? f.render = some (.lexeme (.quote .deref), r) :=
    hr ▸ Piece.next?_of_begins (.single rfl rfl)
  obtain rfl : ts = ⟨.quote .deref, 0⟩ :: (Token.lex r).1 :=
    congrArg Prod.fst (h.scans.lex_eq.symm.trans (Token.lex_lexeme hnext))
  exact h.inert _ List.mem_cons_self

theorem Reads.head?_join_ne {f g : Form} {ts : List Token} (h : Reads f g ts) (fs : List Form) :
    (Text.join " " (renderItems (f :: fs))).head? ≠ some (CodePoint.ofChar '@') := by
  have hfirst := h.head?_ne
  cases fs with
  | nil => simpa [renderItems, Text.join] using hfirst
  | cons f' fs =>
      cases hf : f.render with
      | nil => simp [renderItems, Text.join, hf, Text.ofString, CodePoint.ofChar]
      | cons c r => simpa [renderItems, Text.join, hf] using hfirst

theorem exists_readItems {fs : List Form} (back : ∀ f ∈ fs, ReadsBack f) :
    ∃ gs us, gs.map bare = fs.map bare ∧ Token.Scans (Text.join " " (renderItems fs)) us ∧
      ∀ features, readTokens features us = .ok gs := by
  induction fs with
  | nil => exact ⟨[], [], rfl, Token.scans_nil, fun _ => rfl⟩
  | cons f fs ih =>
      obtain ⟨hf, hfs⟩ := List.forall_mem_cons.1 back
      obtain ⟨g, ts, hts⟩ := hf.exists_reads
      obtain ⟨gs, us, hbare, hus, hreads⟩ := ih hfs
      refine ⟨g :: gs, ts ++ us, ?_, scans_join_cons hts.scans hus, fun features => ?_⟩
      · rw [List.map_cons, List.map_cons, hts.bare, hbare]
      · exact readTokens_concat (hts.reads features) (hreads features)

theorem readsBack_vector {items : List Form} (back : ∀ f ∈ items, ReadsBack f) (line : Nat) :
    ReadsBack (.coll .vector line items) := by
  obtain ⟨gs, us, hbare, hus, hreads⟩ := exists_readItems back
  have hscans := hus.enclosed (isConditional_opener .vector)
  rw [← render_coll .vector line] at hscans
  have hlines : readUpToLines [] (render (.coll .vector line items)) =
      .ok [.coll .vector 0 gs] := by
    rw [readUpToLines_eq, hscans.lex_eq]
    refine readTokens_eq_ok_iff.2 ?_
    rw [run_enclosed (hreads [])]
    rfl
  match hread : readAll [] (render (.coll .vector line items)) with
  | .error e =>
      rw [readUpToLines, hread] at hlines
      cases hlines
  | .ok fs =>
      rw [readUpToLines, hread] at hlines
      obtain ⟨g, rfl, hg⟩ := List.map_eq_singleton_iff.1 (Except.ok.inj hlines)
      refine ⟨[], g, hread, ?_⟩
      rw [← bare_mapLines (fun _ => 0) g, hg, bare_coll, bare_coll, hbare]

/-! ## A splice in place of its items -/

def spliceText (items : List Form) : Text :=
  conditionalText .splice [("clj", .coll .vector 0 items)]

variable {features : List Text} {m : LeadMark} {lead : Text}

theorem readUpToLines_marked (opens : m.Opens lead) {t : Text} {us : List Token}
    (ht : t.head? ≠ some (CodePoint.ofChar '@')) (hlex : Token.lex t = (us, [])) :
    readUpToLines features (lead ++ t) =
      run features ⟨[], [.await m.wait 0]⟩ us >>= finish := by
  rw [readUpToLines_eq, opens.lex ht, hlex]
  change readTokens features (_ :: us) = _
  rw [readTokens, run_cons, opens.step]
  rfl

theorem readUpToLines_marked_items (opens : m.Opens lead) {f g : Form} {fs gs : List Form}
    {ts us : List Token} (hf : Reads f g ts)
    (hus : Token.Scans (Text.join " " (renderItems fs)) us)
    (hreads : readTokens features us = .ok gs) :
    readUpToLines features (lead ++ Text.join " " (renderItems (f :: fs))) =
      .ok (m.applied g :: gs) := by
  have hscans := scans_join_cons hf.scans hus
  have hrest := run_of_readTokens hreads (u := ⟨[m.applied g], []⟩) (.inl trivial)
  rw [readUpToLines_marked opens (hf.head?_join_ne fs) hscans.lex_eq, run_append, hf.run_eq,
    m.deliver_first]
  change (run features ⟨[m.applied g], []⟩ us) >>= finish = _
  rw [hrest]
  simp [deliver, bind, Except.bind, finish]

theorem exists_splice {items gs : List Form} {us : List Token}
    (back : ∀ f ∈ items, ReadsBack f) (hus : Token.Scans (Text.join " " (renderItems items)) us)
    (hreads : ∀ features, readTokens features us = .ok gs) :
    ∃ vs, Token.lex (spliceText items) = (vs, []) ∧
      ∀ features : List Text, Text.ofString "clj" ∈ features → ∀ s,
        run features s vs = deliver s.forms s.stack gs := by
  have hkey : ReadsBack (.keyword "clj") :=
    ⟨[], exists_readAll_render (.keyword (by decide) (by decide))⟩
  have hbranch : ∀ b ∈ [(Text.ofString "clj", Form.coll .vector 0 items)],
      ReadsBack (.keyword b.1) ∧ ReadsBack b.2 :=
    List.forall_mem_singleton.2 ⟨hkey, readsBack_vector back 0⟩
  obtain ⟨read, vs, hread, hscans, htokens⟩ := exists_readsBranches hbranch
  have hlex := hscans.lex_enclosed .splice []
  rw [List.append_nil, Token.scans_nil.lex_eq, List.append_nil] at hlex
  refine ⟨_, hlex, fun features on s => ?_⟩
  have selects := selects_branchItems features read
  have hchosen := hread.chosen? features
  have hfirst : chosen? features [(Text.ofString "clj", .coll .vector 0 items)] =
      some (.coll .vector 0 items) := by simp [chosen?, on]
  rw [hfirst] at hchosen
  generalize chosen? features read = choice at hchosen selects
  cases hchosen with
  | some h =>
      obtain ⟨ts, hts⟩ := h
      obtain ⟨line, gs', us', rfl, -, hus', hreads'⟩ := hts.exists_items
      obtain rfl : us' = us := congrArg Prod.fst (hus'.lex_eq.symm.trans hus.lex_eq)
      obtain rfl : gs' = gs := Except.ok.inj ((hreads' features).symm.trans (hreads features))
      have even := even_length_branchItems read
      exact run_conditional (htokens features) (.splice 0 even selects (.inr rfl)) s

/-- Behind a quote or a tag, forms in a row are read as what the mark makes of the first, and as
the others.  A splice of them is read as the one form that the mark makes of the first.  So the
splice is read as the forms in its place just if there is one. -/
theorem splice_behind_mark (on : Text.ofString "clj" ∈ features) (opens : m.Opens lead)
    {g : Form} {gs : List Form} (back : ∀ f ∈ g :: gs, ReadsBack f) :
    ∃ f fs, f.bare = g.bare ∧ fs.map bare = gs.map bare ∧
      readUpToLines features (lead ++ Text.join " " (renderItems (g :: gs))) =
        .ok (m.applied f :: fs) ∧
      readUpToLines features (lead ++ spliceText (g :: gs)) = .ok [m.applied f] ∧
      (readUpToLines features (lead ++ spliceText (g :: gs)) =
        readUpToLines features (lead ++ Text.join " " (renderItems (g :: gs))) ↔ gs = []) := by
  obtain ⟨hg, hgs⟩ := List.forall_mem_cons.1 back
  obtain ⟨f, ts, hf⟩ := hg.exists_reads
  obtain ⟨fs, us, hbare, hus, hreads⟩ := exists_readItems hgs
  have hrow := readUpToLines_marked_items opens hf hus (hreads features)
  obtain ⟨vs, hlex, hrun⟩ := exists_splice back (scans_join_cons hf.scans hus)
    fun features => readTokens_concat (hf.reads features) (hreads features)
  have hsplice : readUpToLines features (lead ++ spliceText (g :: gs)) =
      .ok [m.applied f] := by
    have hstart : (spliceText (g :: gs)).head? = some (CodePoint.ofChar '#') := rfl
    rw [readUpToLines_marked opens (by simp [hstart, CodePoint.ofChar]) hlex, hrun features on,
      List.singleton_append, m.deliver_first]
    rfl
  refine ⟨f, fs, hf.bare, hbare, hrow, hsplice, ?_⟩
  have hlength : fs.length = gs.length := by simpa using congrArg List.length hbare
  rw [hrow, hsplice, Except.ok.injEq, List.cons.injEq, ← List.length_eq_zero_iff, ← hlength,
    List.length_eq_zero_iff]
  simp [eq_comm]

theorem readsBack_of_plain {f : Form} (h : Plain f) : ReadsBack f :=
  ⟨[], exists_readAll_render h⟩

/-- A vector and nil behind a tag and a comment. -/
theorem splice_behind_mark_tagged :
    (readUpToLines ["cljs", "clj"] "#js;c\n [0 1] nil").map (·.map bare) =
        .ok [.coll .vector 0 [.int 0, .int 1], .nil] ∧
      (readUpToLines ["cljs", "clj"] "#js;c\n #?@(:clj [[0 1] nil])").map (·.map bare) =
        .ok [.coll .vector 0 [.int 0, .int 1]] := by
  have named : Form.TagName "js" := ⟨by decide, by decide⟩
  have comment : Text.newline ∉ Text.ofString "c" := by decide
  have opens : (LeadMark.tag "js").Opens "#js;c\n " :=
    .tag named (.append (.comment comment) (.gap (c := ' ') (by decide)))
  have back : ∀ f ∈ [Form.coll .vector 0 [.int 0, .int 1], .nil], ReadsBack f := by
    have hvector : Plain (.coll .vector 0 [.int 0, .int 1]) := by
      refine .coll 0 nofun ?_
      simpa using ⟨Plain.int (by decide), Plain.int (by decide)⟩
    simpa using ⟨readsBack_of_plain hvector, readsBack_of_plain .nil⟩
  have on : Text.ofString "clj" ∈ [Text.ofString "cljs", Text.ofString "clj"] := by decide
  obtain ⟨f, fs, hf, hfs, hrow, hsplice, -⟩ := splice_behind_mark on opens back
  constructor
  · change (readUpToLines _ (Text.ofString "#js;c\n " ++
      Text.join " " (renderItems [.coll .vector 0 [.int 0, .int 1], .nil]))).map _ = _
    rw [hrow]
    simp [Except.map, LeadMark.applied, hf, hfs, bare, bareItems]
  · change (readUpToLines _ (Text.ofString "#js;c\n " ++
      spliceText [.coll .vector 0 [.int 0, .int 1], .nil])).map _ = _
    rw [hsplice]
    simp [Except.map, LeadMark.applied, hf, bare, bareItems]

/-- Of two symbols in a splice behind a quote the second is lost. -/
theorem spliced_symbol_lost :
    (∀ f ∈ [ofName "a", ofName "b"], ReadsBack f) ∧
      readAll ["clj"] "'#?@(:clj [a b])" = .ok [.coll .list 1 [ofName "quote", ofName "a"]] ∧
      readAll ["clj"] "'a b" = .ok [.coll .list 1 [ofName "quote", ofName "a"], ofName "b"] := by
  have hsymbols : ∀ name ∈ [Text.ofString "a", Text.ofString "b"], ReadsBack (ofName name) := by
    have hnames : ∀ name ∈ [Text.ofString "a", Text.ofString "b"], SymbolName name := by
      simp only [List.forall_mem_cons]
      refine ⟨⟨⟨?_, ?_, ?_⟩, ⟨?_, ?_, ?_, ?_, ?_, ?_, ?_⟩⟩,
        ⟨⟨?_, ?_, ?_⟩, ⟨?_, ?_, ?_, ?_, ?_, ?_, ?_⟩⟩, nofun⟩ <;> decide
    exact fun name h => readsBack_of_plain (.symbol [] (hnames name h))
  have hspliced : Piece.Cuts "'#?@(:clj [a b])" _ [] :=
    .piece rfl (.piece rfl (.piece rfl (.piece rfl (.piece rfl (.piece rfl (.piece rfl (.piece rfl
      (.piece rfl (.piece rfl (.done _))))))))))
  have hrow : Piece.Cuts "'a b" _ [] := .piece rfl (.piece rfl (.piece rfl (.piece rfl (.done _))))
  refine ⟨by simpa using hsymbols, ?_, ?_⟩
  · rw [readAll, Token.tokenize_of_cuts hspliced]
    rfl
  · rw [readAll, Token.tokenize_of_cuts hrow]
    rfl

end Form

end Docsmith
