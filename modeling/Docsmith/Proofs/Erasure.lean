import Docsmith.Proofs.Indifference
import Docsmith.Proofs.Verbatim

/-!
# Discards, tags and metadata are erased

On a line of their own, discards before as many forms do nothing, and a tag or metadata before
a form do no more than the form: in every context, whatever is open or waits.  Discards and tags
leave no trace at all.  Metadata do, and may show in the label of a key further out.
-/

namespace Docsmith

open Reader Grammar

namespace Form

def inContext (pre post mid : Text) : Text :=
  pre ++ Text.newline :: (mid ++ Text.newline :: post)

/-! ## Discards -/

def discardsText (fs : List Form) : Text :=
  Text.join " " (List.replicate fs.length (Text.ofString "#_") ++ renderItems fs)

theorem scans_discard : Token.Scans "#_" [⟨.discard, 0⟩] :=
  Token.scans_leaf rfl fun u _ => Piece.next?_of_begins (.signed u (by decide))

theorem scans_discards (n : Nat) {texts : List Text} {us : List Token}
    (h : Token.Scans (Text.join " " texts) us) :
    Token.Scans (Text.join " " (List.replicate n (Text.ofString "#_") ++ texts))
      (List.replicate n ⟨.discard, 0⟩ ++ us) := by
  induction n with
  | zero => exact h
  | succ n ih =>
      have hmore := scans_join_cons scans_discard ih
      exact hmore

theorem run_discards (features : List Text) (n : Nat) (top : List Form) (stack : List Frame) :
    run features ⟨top, stack⟩ (List.replicate n ⟨.discard, 0⟩) =
      .ok ⟨top, List.replicate n (.await .discard 0) ++ stack⟩ := by
  induction n generalizing stack with
  | zero => rfl
  | succ n ih =>
      rw [List.replicate_succ, run_cons]
      change run features ⟨top, .await .discard 0 :: stack⟩ _ = _
      rw [ih, List.replicate_succ', List.append_assoc]
      rfl

theorem exists_discarded {fs : List Form} (back : ∀ f ∈ fs, ReadsBack f) :
    ∃ us, Token.Scans (Text.join " " (renderItems fs)) us ∧ ∀ features top stack,
      run features ⟨top, List.replicate fs.length (.await .discard 0) ++ stack⟩ us =
        .ok ⟨top, stack⟩ := by
  induction fs with
  | nil => exact ⟨[], Token.scans_nil, fun _ _ _ => rfl⟩
  | cons f fs ih =>
      obtain ⟨hf, hfs⟩ := List.forall_mem_cons.1 back
      obtain ⟨g, ts, hts⟩ := hf.exists_reads
      obtain ⟨us, hus, hrun⟩ := ih hfs
      refine ⟨ts ++ us, scans_join_cons hts.scans hus, fun features top stack => ?_⟩
      rw [run_append, hts.run_eq, List.length_cons, List.replicate_succ, List.cons_append, deliver,
        deliver_nil]
      exact hrun features top stack

theorem alike_discards (features : List Text) {fs : List Form} (back : ∀ f ∈ fs, ReadsBack f) :
    Alike features (fun _ => True) (discardsText fs) [] := by
  obtain ⟨us, hus, hrun⟩ := exists_discarded back
  refine ⟨_, [], (scans_discards fs.length hus).lex, Token.scans_nil.lex, fun s _ => ?_⟩
  rw [run_append, run_discards]
  exact hrun features s.forms s.stack

theorem readUpToLines_blank (features : List Text) {pre : Text} {ts : List Token}
    (hpre : Token.lex pre = (ts, [])) (post : Text) :
    readUpToLines features (inContext pre post []) =
      readUpToLines features (pre ++ Text.newline :: post) := by
  have hend : (Token.lex pre).2 = [] := by rw [hpre]
  rw [readUpToLines_eq, readUpToLines_eq, inContext, Token.lex_append_newline hend,
    Token.lex_append_newline hend, List.nil_append, Token.lex_gap (by decide)]

/-! ## Tags -/

def taggedText (tag t : Text) : Text := CodePoint.ofChar '#' :: (tag ++ CodePoint.ofChar ' ' :: t)

/-- What is a tag behind a number sign, as every name is that begins with a letter. -/
structure TagName (tag : Text) : Prop where
  atoms : ∀ c ∈ tag, c.isAtom = true
  start : ∀ c ∈ tag.head?, c ∉ ['_', '\'', '#'].map CodePoint.ofChar

theorem mark_of_signed : ∀ e ∈ Piece.signed, (∀ c ∈ e.1, c.isAtom = true) →
    ∃ c ∈ e.1.head?, c ∈ ['_', '\'', '#'].map CodePoint.ofChar := by
  decide

theorem TagName.unmarked {tag : Text} (h : TagName tag) :
    ∀ e ∈ Piece.signed, Text.after? e.1 tag = none := by
  intro e he
  apply Option.eq_none_iff_forall_ne_some.2
  intro rest hrest
  obtain rfl := Text.eq_append_of_after? hrest
  obtain ⟨c, hc, hmark⟩ := mark_of_signed e he (List.forall_mem_append.1 h.atoms).1
  exact h.start c (by simp_all) hmark

theorem TagName.scans {tag : Text} (h : TagName tag) :
    Token.Scans (CodePoint.ofChar '#' :: tag) [⟨.atom (CodePoint.ofChar '#' :: tag), 0⟩] :=
  Token.scans_leaf rfl (Token.leads_signAtom h.atoms h.unmarked).cut

theorem TagName.step {tag : Text} (h : TagName tag) (features : List Text) (s : State) :
    step features s ⟨.atom (CodePoint.ofChar '#' :: tag), 0⟩ = .ok (push s (.await .tag 0)) := by
  have hsingle : Text.after? "##" (CodePoint.ofChar '#' :: tag) = none := by
    cases tag with
    | nil => rfl
    | cons c r =>
        have hc : CodePoint.ofChar '#' ≠ c := by
          rintro rfl
          exact h.start _ rfl (by decide)
        simp [Text.ofString, Text.after?, hc]
  simp [Reader.step, hsingle]

theorem alike_tagged (features : List Text) {tag : Text} (named : TagName tag) {f : Form}
    (back : ReadsBack f) : Alike features (fun _ => True) (taggedText tag f.render) f.render := by
  obtain ⟨g, ts, hts⟩ := back.exists_reads
  refine ⟨_, ts, (named.scans.space hts.scans).lex, hts.scans.lex, fun s _ => ?_⟩
  rw [List.singleton_append, run_cons, named.step]
  change run features ⟨s.forms, .await .tag 0 :: s.stack⟩ ts = _
  rw [hts.run_eq, hts.run_eq, deliver]

/-! ## Metadata -/

/-- What a text is read as, or why not, without lines and metadata. -/
def readBare (features : List Text) (t : Text) : Except ReadError (List Form) :=
  relocate (fun _ => 0) (List.map bare) (readAll features t)

theorem readBare_eq (features : List Text) (t : Text) :
    readBare features t = relocate (fun _ => 0) (List.map bare) (readUpToLines features t) := by
  rw [readBare, readUpToLines]
  cases readAll features t with
  | error e => cases e <;> rfl
  | ok fs => simp [relocate, Function.comp_def, bare_mapLines]

theorem eq_of_relocate_eq {α β : Type} {g : Nat → Nat} {h : α → β} {x : Except ReadError α}
    (hx : relocate g h x = .error .integerTooLongToWrite) :
    x = .error .integerTooLongToWrite := by
  cases x with
  | error e => cases e <;> simp_all [relocate, ReadError.mapLines]
  | ok a => cases hx

theorem readBare_between (features : List Text) {pre mid : Text} {ts us : List Token}
    (hpre : Token.lex pre = (ts, [])) (hmid : Token.Scans mid us) (post : Text) :
    readBare features (inContext pre post mid) =
      match Token.lex post with
      | (vs, []) => relocate (fun _ => 0) (List.map bare) (readTokens features (ts ++ (us ++ vs)))
      | (_, c :: _) => .error (.unreadable c 0) := by
  rw [readBare_eq, inContext, readUpToLines_between features hpre hmid.lex]
  cases Token.lex post with
  | mk vs last => cases last <;> rfl

/-- With the metadata and without, the same is read, unless a label is too long to be written
in one of the texts. -/
theorem readBare_annotated (features : List Text) {pre : Text} {ts : List Token}
    (hpre : Token.lex pre = (ts, [])) (post : Text) {m m' f g : Form} {us vs : List Token}
    (hm : Reads m m' us) (hf : Reads f g vs) :
    readBare features (inContext pre post (annotatedText [m] f.render)) =
        .error .integerTooLongToWrite ∨
      readBare features (inContext pre post f.render) = .error .integerTooLongToWrite ∨
      readBare features (inContext pre post (annotatedText [m] f.render)) =
        readBare features (inContext pre post f.render) := by
  rw [readBare_between features hpre (scans_annotated hm.scans hf.scans) post,
    readBare_between features hpre hf.scans post]
  cases Token.lex post with
  | mk ws last =>
      cases last with
      | cons c r => exact .inr (.inr rfl)
      | nil =>
          have hagree := agree_readTokens (run_annotated hm (hf.run_eq features))
            (hf.run_eq features) (bare_annotate _ g) ts ws
          rcases hagree with h | h | h
          · simp only [h]
            exact .inl rfl
          · simp only [h]
            exact .inr (.inl rfl)
          · exact .inr (.inr h)

theorem readBare_ne {features : List Text} {pre post mid : Text} {ts us : List Token} {g : Form}
    (hpre : Token.tokenize pre = .ok ts)
    (fits : ∀ tok ∈ ts ++ (Token.scan 1 post).1, withinLimit tok.lexeme = true)
    (hmid : Token.Scans mid us)
    (hus : ∀ s, run features s us = deliver s.forms s.stack [g]) (hg : g.labelable = true) :
    readBare features (inContext pre post mid) ≠ .error .integerTooLongToWrite := by
  obtain ⟨hts, hws⟩ := List.forall_mem_append.1 fits
  have hne := readTokens_ne hus hg
    (List.forall_mem_map.2 hts : ∀ tok ∈ ts.map (Token.mapLines fun _ => 0), _)
    (List.forall_mem_map.2 hws : ∀ tok ∈ (Token.scan 1 post).1.map (Token.mapLines fun _ => 0), _)
  rw [readBare_between features (Token.lex_of_tokenize hpre) hmid post, Token.lex_eq 1 post]
  intro h
  cases hend : (Token.scan 1 post).2 with
  | cons c r =>
      rw [hend] at h
      cases h
  | nil =>
      rw [hend] at h
      exact hne (eq_of_relocate_eq h)

/-- In every context discards before as many forms are read as nothing, and a tag before a form as
the form.  So are metadata, but for metadata: both texts fail alike or have the same forms, unless
a label is too long to be written in one of them.  This needs an integer above the limit before or
after. -/
theorem erased_in_context (features : List Text) {pre : Text} {ts : List Token}
    (hpre : Token.tokenize pre = .ok ts) (post : Text) :
    (∀ fs, (∀ f ∈ fs, ReadsBack f) →
      readUpToLines features (inContext pre post (discardsText fs)) =
        readUpToLines features (pre ++ Text.newline :: post)) ∧
    ∀ f, ReadsBack f →
      (∀ tag, TagName tag →
        readUpToLines features (inContext pre post (taggedText tag f.render)) =
          readUpToLines features (inContext pre post f.render)) ∧
      ∀ m, ReadsBack m →
        (readBare features (inContext pre post (annotatedText [m] f.render)) =
            .error .integerTooLongToWrite ∨
          readBare features (inContext pre post f.render) = .error .integerTooLongToWrite ∨
          readBare features (inContext pre post (annotatedText [m] f.render)) =
            readBare features (inContext pre post f.render)) ∧
        ((∀ tok ∈ ts ++ (Token.scan 1 post).1, withinLimit tok.lexeme = true) →
          readBare features (inContext pre post (annotatedText [m] f.render)) =
            readBare features (inContext pre post f.render)) := by
  have hlex := Token.lex_of_tokenize hpre
  constructor
  · intro fs back
    rw [← readUpToLines_blank features hlex post]
    exact (alike_discards features back).readUpToLines_eq hlex (fun _ _ => trivial) post
  · intro f hf
    constructor
    · intro tag named
      exact (alike_tagged features named hf).readUpToLines_eq hlex (fun _ _ => trivial) post
    · intro m hm
      obtain ⟨m', us, hus⟩ := hm.exists_reads
      obtain ⟨g, vs, hvs⟩ := hf.exists_reads
      have hagree := readBare_annotated features hlex post hus hvs
      refine ⟨hagree, fun fits => ?_⟩
      have hannotated := readBare_ne hpre fits (scans_annotated hus.scans hvs.scans)
        (run_annotated hus (hvs.run_eq features)) (labelable_annotate hus.labelable hvs.labelable)
      have hplain := readBare_ne hpre fits hvs.scans (hvs.run_eq features) hvs.labelable
      exact (hagree.resolve_left hannotated).resolve_left hplain

/-- Two forms are discarded, and a tag and a flag given to a form, behind a quote in a list. -/
theorem erased_behind_quote :
    let pre : Text := "(a '"
    let post : Text := "d)"
    let quoted (f : Form) : Form := .coll .list 0 [ofName "quote", f]
    readUpToLines [] (inContext pre post (discardsText [.nil, .bool true])) =
      .ok [.coll .list 0 [ofName "a", quoted (ofName "d")]] ∧
    readUpToLines [] (inContext pre post (taggedText "t" (render .nil))) =
      .ok [.coll .list 0 [ofName "a", quoted .nil, ofName "d"]] ∧
    readBare [] (inContext pre post (annotatedText [.keyword "k"] (render .nil))) =
      .ok [.coll .list 0 [ofName "a", quoted .nil, ofName "d"]] := by
  intro pre post quoted
  have plain {f : Form} (h : Plain f) : ReadsBack f := ⟨[], exists_readAll_render h⟩
  have hpre : Piece.Cuts pre _ [] :=
    .piece rfl (.piece rfl (.piece rfl (.piece rfl (.done _))))
  have hwithout : Piece.Cuts "(a '\nd)" _ [] :=
    .piece rfl (.piece rfl (.piece rfl (.piece rfl (.piece rfl (.piece rfl (.piece rfl
      (.done _)))))))
  have hwith : Piece.Cuts "(a '\nnil\nd)" _ [] :=
    .piece rfl (.piece rfl (.piece rfl (.piece rfl (.piece rfl (.piece rfl (.piece rfl (.piece rfl
      (.piece rfl (.done _)))))))))
  obtain ⟨hdiscards, hforms⟩ := erased_in_context [] (Token.tokenize_of_cuts hpre) post
  obtain ⟨htagged, hannotated⟩ := hforms .nil (plain .nil)
  have hlines : readUpToLines [] (inContext pre post (render .nil)) =
      .ok [.coll .list 0 [ofName "a", quoted .nil, ofName "d"]] := by
    change readUpToLines _ (Text.ofString "(a '\nnil\nd)") = _
    rw [readUpToLines_eq, Token.lex_of_tokenize (Token.tokenize_of_cuts hwith)]
    rfl
  refine ⟨?_, ?_, ?_⟩
  · rw [hdiscards [.nil, .bool true] (by simpa using ⟨plain .nil, plain (.bool true)⟩)]
    change readUpToLines _ (Text.ofString "(a '\nd)") = _
    rw [readUpToLines_eq, Token.lex_of_tokenize (Token.tokenize_of_cuts hwithout)]
    rfl
  · rw [htagged "t" ⟨by decide, by decide⟩, hlines]
  · have fits := (hannotated (.keyword "k") (plain (.keyword (by decide) (by decide)))).2
    have hpost : Piece.Cuts post _ [] := .piece rfl (.piece rfl (.done _))
    rw [fits, readBare_eq, hlines]
    · rfl
    · rw [Token.tokenize_eq_ok_iff.1 (Token.tokenize_of_cuts hpost)]
      decide

/-! ## Where metadata show -/

def largest (n : Nat) : Text :=
  CodePoint.ofChar '0' :: CodePoint.ofChar 'x' :: List.replicate n (CodePoint.ofChar 'f')

theorem foldDigits_replicate (n : Nat) :
    Text.foldDigits 16 (List.replicate n 15) + 1 = 16 ^ n := by
  induction n with
  | zero => rfl
  | succ n ih =>
      rw [Text.foldDigits] at ih ⊢
      rw [List.replicate_succ', List.foldl_append, Nat.pow_succ, ← ih]
      simp only [List.foldl_cons, List.foldl_nil]
      omega

theorem ofAtom_largest (n : Nat) :
    ofAtom (largest (n + 1)) = .ok (.int (Text.foldDigits 16 (List.replicate (n + 1) 15))) := by
  have hdigits : (List.replicate (n + 1) (CodePoint.ofChar 'f')).filterMap CodePoint.hexValue? =
      List.replicate (n + 1) 15 := List.filterMap_replicate_of_some (by decide)
  have hhex : hexLiteral? (largest (n + 1)) = some (false, List.replicate (n + 1) 15) := by
    rw [← hdigits]
    apply if_pos
    have hf : (CodePoint.ofChar 'f').isHexDigit = true := by decide
    simp [List.replicate_succ, hf]
  have hdecimal : decimalLiteral? (largest (n + 1)) = none := rfl
  have hnil : largest (n + 1) ≠ Text.ofString "nil" := nofun
  have htrue : largest (n + 1) ≠ Text.ofString "true" := nofun
  have hfalse : largest (n + 1) ≠ Text.ofString "false" := nofun
  have hcolon : (largest (n + 1)).head? ≠ some (CodePoint.ofChar ':') := nofun
  simp only [ofAtom, hnil, htrue, hfalse, hcolon, hdecimal, hhex, if_false]
  rfl

theorem plainAtom_largest (n : Nat) : Piece.PlainAtom (largest n) := by
  refine ⟨nofun, ?_, ?_⟩
  · refine List.forall_mem_cons.2 ⟨by decide, List.forall_mem_cons.2 ⟨by decide, ?_⟩⟩
    intro c hc
    rw [List.eq_of_mem_replicate hc]
    decide
  · intro c hc
    cases hc
    decide

theorem integerFits_largest :
    integerFits (Text.foldDigits 16 (List.replicate 3600 15) : Nat) = false := by
  have hlimit : maxIntegerDigits = 43 * 100 := rfl
  have hcount : 3600 = 36 * 100 := rfl
  have hless : 10 ^ maxIntegerDigits < 16 ^ 3600 := by
    rw [hlimit, hcount, Nat.pow_mul, Nat.pow_mul]
    exact Nat.pow_lt_pow_left (by decide) (by decide)
  have hfold := foldDigits_replicate 3600
  apply Bool.eq_false_iff.2
  rw [Ne, integerFits_iff, Int.natAbs_natCast]
  omega

theorem step_closeEntry (features : List Text) (top : List Form) (stack : List Frame)
    (key value : Form) {mark start line : Nat} :
    step features ⟨top, .gather .brace start [value, key] :: .await .attrs mark :: stack⟩
        ⟨.closer .brace, line⟩ =
      attrName key >>= fun name => .ok ⟨top, .await (.target [(name, value)]) mark :: stack⟩ := by
  have hitems : ofCollection features .brace start [value, key].reverse =
      .ok [.coll .map start [key, value]] :=
    (ofCollection_eq_ok_iff .brace start _ _).2 (.coll start rfl fun _ => ⟨1, rfl⟩)
  simp only [step, close, Opener.closer, if_true, hitems]
  change (attrName key >>= fun name => .ok [(name, value)]) >>= _ = _
  cases attrName key <;> rfl

def vectorName (f : Form) : Text := entryName (.coll .vector 0 [f])

/-- Within the metadata of one symbol the metadata of another begin.  They name an entry by the
vector of `f`, and one more by a vector that is open. -/
def nestedPre : Text := "^\x7b[ ^\x7b[f] nil\x7d ^\x7b["

/-- The value of that entry, the symbol inside and the symbol outside. -/
def nestedPost (t : Text) : Text := "] " ++ (t ++ Text.ofString "\x7d x ] nil\x7d y")

def nestedFrames : List Frame :=
  [.await .attrs 0, .await (.target [(vectorName (ofName "f"), .nil)]) 0, .gather .bracket 0 [],
    .gather .brace 0 [], .await .attrs 0]

def nestedTokens (t : Text) : List Token :=
  [⟨.closer .bracket, 0⟩, ⟨.atom t, 0⟩, ⟨.closer .brace, 0⟩, ⟨.atom "x", 0⟩, ⟨.closer .bracket, 0⟩,
    ⟨.atom "nil", 0⟩, ⟨.closer .brace, 0⟩, ⟨.atom "y", 0⟩]

def nestedEntries (g : Form) (n : Int) : Attrs :=
  Table.update [(vectorName g, .int n)] [(vectorName (ofName "f"), .nil)]

def nestedMarks : List Token :=
  [⟨.hat, 1⟩, ⟨.opener .brace, 1⟩, ⟨.opener .bracket, 1⟩, ⟨.hat, 1⟩, ⟨.opener .brace, 1⟩,
    ⟨.opener .bracket, 1⟩, ⟨.atom "f", 1⟩, ⟨.closer .bracket, 1⟩, ⟨.atom "nil", 1⟩,
    ⟨.closer .brace, 1⟩, ⟨.hat, 1⟩, ⟨.opener .brace, 1⟩, ⟨.opener .bracket, 1⟩]

theorem tokenize_nestedPre : Token.tokenize nestedPre = .ok nestedMarks := by
  have hcuts : Piece.Cuts nestedPre _ [] :=
    .piece rfl (.piece rfl (.piece rfl (.piece rfl (.piece rfl (.piece rfl (.piece rfl (.piece rfl
      (.piece rfl (.piece rfl (.piece rfl (.piece rfl (.piece rfl (.piece rfl (.piece rfl
        (.piece rfl (.done _))))))))))))))))
  exact Token.tokenize_of_cuts hcuts

section

variable {t : Text} {n : Int} {g : Form}

theorem lex_nestedPost (plain : Piece.PlainAtom t) :
    Token.lex (nestedPost t) = (nestedTokens t, []) := by
  have hatom : Piece.next? (t ++ Text.ofString "\x7d x ] nil\x7d y") =
      some (Piece.lexeme (.atom t), Text.ofString "\x7d x ] nil\x7d y") :=
    Piece.next?_atom plain (boundary_closer .brace " x ] nil\x7d y")
  have hrest : Piece.Cuts "\x7d x ] nil\x7d y" _ [] :=
    .piece rfl (.piece rfl (.piece rfl (.piece rfl (.piece rfl (.piece rfl (.piece rfl (.piece rfl
      (.piece rfl (.piece rfl (.done _))))))))))
  change Token.lex (Closer.text .bracket ++ CodePoint.ofChar ' ' ::
    (t ++ Text.ofString "\x7d x ] nil\x7d y")) = _
  rw [Token.lex_lexeme (next?_closer .bracket _), Token.lex_gap (by decide),
    Token.lex_lexeme hatom, Token.lex_of_tokenize (Token.tokenize_of_cuts hrest)]
  rfl

theorem readTokens_nested {features : List Text} {ts : List Token}
    (hts : run features State.start ts =
      .ok ⟨[], .gather .bracket 0 [g] :: .gather .brace 0 [] :: nestedFrames⟩)
    (hg : g.labelable = true) (plain : t.head? ≠ some (CodePoint.ofChar '#'))
    (reads : ofAtom t = .ok (.int n)) :
    readTokens features (ts ++ nestedTokens t) =
      attrName (.coll .vector 0 [.symbol "x" (nestedEntries g n)]) >>= fun name =>
        .ok [.symbol "y" [(name, .nil)]] := by
  have hkey : (coll .vector 0 [g]).labelable = true := by
    rw [labelable_coll_iff]
    exact List.forall_mem_singleton.2 hg
  rw [readTokens, run_append, hts]
  change run features ⟨[], .gather .brace 0 [.coll .vector 0 [g]] :: nestedFrames⟩
    (⟨.atom t, 0⟩ :: _) >>= finish = _
  rw [run_cons, step_of_denotes (.atom plain reads)]
  change run features ⟨[], .gather .brace 0 [.int n, .coll .vector 0 [g]] :: nestedFrames⟩
    (⟨.closer .brace, 0⟩ :: _) >>= finish = _
  rw [run_cons, nestedFrames, step_closeEntry, attrName_of_nameable (nameable_of_labelable hkey)]
  change run features ⟨[], [.gather .brace 0
    [.nil, .coll .vector 0 [.symbol "x" (nestedEntries g n)]], .await .attrs 0]⟩
      [⟨.closer .brace, 0⟩, ⟨.atom "y", 0⟩] >>= finish = _
  rw [run_cons, step_closeEntry]
  cases attrName (.coll .vector 0 [.symbol "x" (nestedEntries g n)]) <;> rfl

theorem readBare_nested {features : List Text} {mid : Text} {us : List Token}
    (hmid : Token.Scans mid us) (hg : g.labelable = true)
    (hus : run features State.start (nestedMarks.map (Token.mapLines fun _ => 0) ++ us) =
      .ok ⟨[], .gather .bracket 0 [g] :: .gather .brace 0 [] :: nestedFrames⟩)
    (plain : Piece.PlainAtom t) (reads : ofAtom t = .ok (.int n)) :
    readBare features (inContext nestedPre (nestedPost t) mid) =
      relocate (fun _ => 0) (List.map bare)
        (attrName (.coll .vector 0 [.symbol "x" (nestedEntries g n)]) >>= fun name =>
          .ok [.symbol "y" [(name, .nil)]]) := by
  have hlex := Token.lex_of_tokenize tokenize_nestedPre
  have hsign : t.head? ≠ some (CodePoint.ofChar '#') := fun hhead =>
    plain.start _ hhead (by decide)
  rw [readBare_between features hlex hmid, lex_nestedPost plain]
  simp only
  rw [← List.append_assoc, readTokens_nested hus hg hsign reads]

end

theorem nameable_nested {n : Int} (long : integerFits n = false) :
    nameable (.coll .vector 0
      [.symbol "x" (nestedEntries (.symbol "f" [("m", .bool true)]) n)]) = false := by
  have hentries : nestedEntries (.symbol "f" [("m", .bool true)]) n =
      [(vectorName (.symbol "f" [("m", .bool true)]), .int n),
        (vectorName (ofName "f"), .nil)] := rfl
  simp [hentries, nameable, labelable, labelableItems, labelableAttrs, long]

/-- Metadata may decide whether a text is read.  Without the flag both entries of `x` have one
name, and the integer is lost before a label has to show it. -/
theorem metadata_not_erased :
    (∃ ts, Token.tokenize nestedPre = .ok ts) ∧
    readAll [] (render (.keyword "m")) = .ok [.keyword "m"] ∧
    readAll [] (render (ofName "f")) = .ok [ofName "f"] ∧
    readBare [Text.ofString "clj"]
        (inContext nestedPre (nestedPost (largest 3600)) (render (ofName "f"))) =
      .ok [ofName "y"] ∧
    readBare [Text.ofString "clj"]
        (inContext nestedPre (nestedPost (largest 3600))
          (annotatedText [.keyword "m"] (render (ofName "f")))) =
      .error .integerTooLongToWrite := by
  have hkeyword : Piece.Cuts (render (.keyword "m")) _ [] := .piece rfl (.done _)
  have hname : Piece.Cuts (render (ofName "f")) _ [] := .piece rfl (.done _)
  have hflag : Token.Scans (render (.keyword "m")) _ :=
    Token.scans_leaf rfl fun _ hu =>
      Piece.next?_atom (plainAtom_keyword (by decide)) hu.boundary
  have hscans : Token.Scans (render (ofName "f")) [⟨.atom "f", 0⟩] :=
    Token.scans_leaf rfl fun _ hu =>
      Piece.next?_atom ⟨by decide, by decide, by decide⟩ hu.boundary
  have hplain := plainAtom_largest 3600
  obtain ⟨n, hreads, hlong⟩ : ∃ n, ofAtom (largest 3600) = .ok (.int n) ∧ integerFits n = false :=
    ⟨_, ofAtom_largest 3599, integerFits_largest⟩
  refine ⟨⟨_, tokenize_nestedPre⟩, ?_, ?_, ?_, ?_⟩
  · rw [readAll, Token.tokenize_of_cuts hkeyword]
    rfl
  · rw [readAll, Token.tokenize_of_cuts hname]
    rfl
  · have hform : (ofName "f").labelable = true := rfl
    rw [readBare_nested hscans hform rfl hplain hreads]
    rfl
  · have hform : (symbol "f" [("m", .bool true)]).labelable = true := rfl
    rw [readBare_nested (scans_annotated hflag hscans) hform rfl hplain hreads,
      attrName_of_not_nameable (nameable_nested hlong)]
    rfl

end Form

end Docsmith
