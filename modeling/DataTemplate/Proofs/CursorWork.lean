/-
Work on places by byte positions, in any order and with copies that are taken up again.  No cut of the
text ever fails, every place stands between two characters, and an operation moves its place over
exactly the text that it answers.  Main statements:
`ByteCursor.Operation.performed` and `Bench.run_sound`.
-/
import DataTemplate.Proofs.ByteCursors

namespace DataTemplate

/-! ### What an operation does -/

namespace ByteCursor

/-- An operation on a place. -/
inductive Operation where
  | advance (n : Nat)
  | jumpTo (position : Nat)
  | skipBlanks
  | matchLiteral (text : List Char)
  | matchWhile (p : Char → Bool)
  | matchBalanced (pairs : List (Char × Char)) (escapes : List Char)
  | matchQuoted (raw : Bool)

/-- What an operation answers. -/
inductive Answer where
  | done
  | text (text : List Char)
  | bytes (n : Nat)
  | matched (found : Bool)
  | run (found : Option (List Char))
  | quoted (content : Except UnclosedQuote (Option (List Char)))

/-- Perform an operation: its answer, and where it leaves the place. -/
def Operation.perform (finder : ByteFinder) (b : ByteCursor) :
    Operation → Except BadSlice (Answer × ByteCursor)
  | advance n => (b.advance n).map fun (text, d) => (.text text, d)
  | jumpTo position => .ok (.done, b.jumpTo position)
  | skipBlanks => b.skipBlanks.map fun (n, d) => (.bytes n, d)
  | matchLiteral text => (b.matchLiteral text).map fun (found, d) => (.matched found, d)
  | matchWhile p => (b.matchWhile p).map fun (text, d) => (.text text, d)
  | matchBalanced pairs escapes =>
    (b.matchBalanced pairs escapes).map fun (run, d) => (.run run, d)
  | matchQuoted raw => (b.matchQuoted finder raw).map fun (content, d) => (.quoted content, d)

/-- `d` stands right behind `text`, which the source spells from `b` on. -/
structure Walks (b : ByteCursor) (text : List Char) (d : ByteCursor) : Prop where
  source_eq : d.source = b.source
  position_eq : d.position = b.position + byteLength text
  spelled : Span.Spells b.source ⟨b.position, d.position⟩ text

/-- `d` stands behind the longest run of a class from `b` on. -/
structure RunsOver (b : ByteCursor) (p : Char → Bool) (text : List Char) (d : ByteCursor) :
    Prop extends b.Walks text d where
  all : ∀ x ∈ text, p x = true
  longest : ∀ x e, d.Walks [x] e → p x = false

/-- What an operation may answer at `b`, and where that leaves the place: a count moves it to the
first boundary that far on, a text that is recognised moves it behind that text, and a failure leaves
it where it was. -/
inductive Performed (b : ByteCursor) : Operation → Answer → ByteCursor → Prop where
  | advance {n : Nat} {text : List Char} {d : ByteCursor} (hpeek : b.peek n = .ok text)
      (hwalks : b.Walks text d) (hfirst : FirstBoundary b.source (b.position + n) d.position) :
      Performed b (.advance n) (.text text) d
  | jumpTo {position : Nat} {d : ByteCursor} (hsource : d.source = b.source)
      (hfirst : FirstBoundary b.source position d.position) :
      Performed b (.jumpTo position) .done d
  | skipBlanks {text : List Char} {d : ByteCursor} (hruns : b.RunsOver isBlank text d) :
      Performed b .skipBlanks (.bytes (byteLength text)) d
  | literal {text : List Char} {d : ByteCursor} (hwalks : b.Walks text d) :
      Performed b (.matchLiteral text) (.matched true) d
  | noLiteral {text : List Char} (hnowhere : ¬ ∃ d, b.Walks text d) :
      Performed b (.matchLiteral text) (.matched false) b
  | run {p : Char → Bool} {text : List Char} {d : ByteCursor} (hruns : b.RunsOver p text d) :
      Performed b (.matchWhile p) (.text text) d
  | balanced {pairs : List (Char × Char)} {escapes run : List Char} {d : ByteCursor}
      (hwalks : b.Walks run d) : Performed b (.matchBalanced pairs escapes) (.run (some run)) d
  | unbalanced {pairs : List (Char × Char)} {escapes : List Char} :
      Performed b (.matchBalanced pairs escapes) (.run none) b
  | quoted {quote : Quote} {content : List Char} {raw : Bool} {d : ByteCursor}
      (hwalks : b.Walks (quote.char :: (content ++ [quote.char])) d) :
      Performed b (.matchQuoted raw)
        (.quoted (.ok (some (if raw then content else unescape content)))) d
  | noQuote {raw : Bool} : Performed b (.matchQuoted raw) (.quoted (.ok none)) b
  | unclosed {raw : Bool} {fault : UnclosedQuote} :
      Performed b (.matchQuoted raw) (.quoted (.error fault)) b

/-- `b` stands between two characters of `source`. -/
structure Within (source : List Char) (b : ByteCursor) : Prop where
  source_eq : b.source = source
  boundary : IsBoundary source b.position

theorem within_iff {source : List Char} {b : ByteCursor} :
    b.Within source ↔ ∃ c : Cursor, c.source = source ∧ c.bytes = b := by
  constructor
  · rintro ⟨rfl, before, after, hsource, hposition⟩
    exact ⟨⟨b.source, b.position, after, before, hsource, hposition⟩, rfl, rfl⟩
  · rintro ⟨c, rfl, rfl⟩
    exact ⟨rfl, c.isBoundary⟩

end ByteCursor

theorem Cursor.within_bytes (c : Cursor) : c.bytes.Within c.source :=
  ByteCursor.within_iff.mpr ⟨c, rfl, rfl⟩

theorem Cursor.Moves.walks {c d : Cursor} {text : List Char} (h : c.Moves text d) :
    c.bytes.Walks text d.bytes := ⟨h.source_eq, h.position_eq, h.spells⟩

theorem Cursor.Moves.within {c d : Cursor} {text : List Char} (h : c.Moves text d) :
    d.bytes.Within c.source := h.source_eq ▸ d.within_bytes

theorem Cursor.prefix_of_walks {c : Cursor} {text : List Char} {d : ByteCursor}
    (h : c.bytes.Walks text d) : text <+: c.rest := by
  obtain ⟨before, hbefore, hplace⟩ := c.splits
  obtain ⟨before', after, hsource, hspan⟩ := h.spelled
  have hstart : c.position = byteLength before' := congrArg Span.start hspan
  have hcut := cutBytes_byteLength before' (text ++ after)
  rw [← hsource, ← hstart, hplace] at hcut
  have hrest : (before, c.rest) = (before', text ++ after) := by
    rw [← hcut, ← cutBytes_byteLength before, ← hbefore]
    rfl
  exact ⟨after, (Prod.mk.inj hrest).2.symm⟩

theorem Cursor.runsOver_matchWhile (c : Cursor) (p : Char → Bool) :
    c.bytes.RunsOver p (c.runOf p) (c.matchWhile p).bytes where
  toWalks := (c.moves_matchWhile p).walks
  all x hx := by
    have hall : (c.rest.takeWhile p).all p = true := List.all_takeWhile
    exact List.all_eq_true.mp hall x hx
  longest x e h := by
    obtain ⟨more, hmore⟩ := Cursor.prefix_of_walks h
    have hhead : (c.rest.dropWhile p).head? = some x := by
      rw [show c.rest.dropWhile p = x :: more from hmore.symm, List.head?_cons]
    have hdropped := List.head?_dropWhile_not p c.rest
    simpa [hhead] using hdropped

/-- From a place between two characters every operation goes through, and comes to such a place. -/
theorem ByteCursor.Operation.performed {finder : ByteFinder} (hfinder : finder.FindsFirst)
    {source : List Char} {b : ByteCursor} (hb : b.Within source) (operation : Operation) :
    ∃ answer d, operation.perform finder b = .ok (answer, d) ∧ d.Within source ∧
      b.Performed operation answer d := by
  obtain ⟨c, rfl, rfl⟩ := ByteCursor.within_iff.mp hb
  cases operation with
  | advance n =>
    have hmoves := c.moves_advance n
    have hfirst := c.firstBoundary_jumpTo (c.position + n)
    rw [c.jumpTo_add] at hfirst
    refine ⟨.text (c.peek n), (c.advance n).bytes, ?_, hmoves.within,
      .advance (c.bytes_peek n) hmoves.walks hfirst⟩
    rw [perform, c.bytes_advance]
    rfl
  | jumpTo position =>
    refine ⟨.done, (c.jumpTo position).bytes, ?_, (c.jumpTo position).within_bytes,
      .jumpTo rfl (c.firstBoundary_jumpTo position)⟩
    rw [perform, c.bytes_jumpTo]
  | skipBlanks =>
    have hmoves := c.moves_matchWhile isBlank
    refine ⟨.bytes (byteLength (c.runOf isBlank)), c.skipBlanks.bytes, ?_, hmoves.within,
      .skipBlanks (c.runsOver_matchWhile isBlank)⟩
    rw [perform, c.bytes_skipBlanks]
    rfl
  | matchLiteral text =>
    rw [perform, c.bytes_matchLiteral]
    cases h : c.matchLiteral text with
    | none =>
      have hnowhere : ¬ ∃ d, c.bytes.Walks text d := fun ⟨_, hwalks⟩ =>
        Cursor.matchLiteral_none h (Cursor.prefix_of_walks hwalks)
      exact ⟨.matched false, c.bytes, rfl, hb, .noLiteral hnowhere⟩
    | some d =>
      have hmoves := Cursor.matchLiteral_some h
      exact ⟨.matched true, d.bytes, rfl, hmoves.within, .literal hmoves.walks⟩
  | matchWhile p =>
    have hmoves := c.moves_matchWhile p
    refine ⟨.text (c.runOf p), (c.matchWhile p).bytes, ?_, hmoves.within,
      .run (c.runsOver_matchWhile p)⟩
    rw [perform, c.bytes_matchWhile]
    rfl
  | matchBalanced pairs escapes =>
    rw [perform, c.bytes_matchBalanced]
    rcases c.takeBalanced_moves pairs escapes with h | ⟨run, d, h, hmoves⟩
    · exact ⟨.run none, c.bytes, by rw [h]; rfl, hb, .unbalanced⟩
    · exact ⟨.run (some run), d.bytes, by rw [h]; rfl, hmoves.within, .balanced hmoves.walks⟩
  | matchQuoted raw =>
    rw [perform, c.bytes_matchQuoted hfinder]
    rcases h : c.matchQuoted with fault | _ | ⟨content, d⟩
    · exact ⟨.quoted (.error fault), c.bytes, rfl, hb, .unclosed⟩
    · exact ⟨.quoted (.ok none), c.bytes, rfl, hb, .noQuote⟩
    · obtain ⟨quote, inner, stop, -, hopen, hbody, hclose⟩ := Cursor.matchQuoted_some h
      have hmoves := hopen.trans (hbody.trans hclose)
      exact ⟨.quoted (.ok (some (if raw then content else unescape content))), d.1.bytes, rfl,
        hmoves.within, .quoted hmoves.walks⟩

/-! ### Sequences of operations -/

/-- A place that is worked on, and the copies of places that were kept. -/
structure Bench where
  current : ByteCursor
  copies : List ByteCursor

namespace Bench

/-- A step of the work on places. -/
inductive Action where
  | operate (operation : ByteCursor.Operation)
  | cloneAt (offset : Nat)
  | save
  | restore (index : Nat)

/-- The start of a text, and no copies. -/
def start (source : List Char) : Bench := ⟨.ofText source, []⟩

/-- Do one step.  Copies are kept in the order in which they were made; one that is taken up again
stays. -/
def step (finder : ByteFinder) (bench : Bench) : Action → Except BadSlice Bench
  | .operate operation =>
    (operation.perform finder bench.current).map fun (_, d) => { bench with current := d }
  | .cloneAt offset => (bench.current.cloneAt offset).map fun copy =>
    { bench with copies := bench.copies ++ [copy] }
  | .save => .ok { bench with copies := bench.copies ++ [bench.current] }
  | .restore index => .ok { bench with current := bench.copies[index]?.getD bench.current }

/-- Do one step after the other. -/
def run (finder : ByteFinder) (bench : Bench) (actions : List Action) : Except BadSlice Bench :=
  actions.foldlM (step finder) bench

/-- All places of a bench stand between two characters of `source`. -/
def Within (source : List Char) (bench : Bench) : Prop :=
  ∀ b ∈ bench.current :: bench.copies, b.Within source

variable {finder : ByteFinder} {source : List Char}

theorem cloneAt_within {b : ByteCursor} (hb : b.Within source) (offset : Nat) :
    ∃ text copy, b.advance offset = .ok (text, copy) ∧ b.cloneAt offset = .ok copy ∧
      copy.Within source := by
  obtain ⟨c, rfl, rfl⟩ := ByteCursor.within_iff.mp hb
  refine ⟨c.peek offset, (c.advance offset).bytes, c.bytes_advance offset, ?_,
    (c.moves_advance offset).within⟩
  rw [ByteCursor.cloneAt, c.bytes_advance]
  rfl

theorem step_within (hfinder : finder.FindsFirst) {bench : Bench} (h : bench.Within source)
    (action : Action) : ∃ next, bench.step finder action = .ok next ∧ next.Within source := by
  obtain ⟨hcurrent, hcopies⟩ := List.forall_mem_cons.mp h
  -- what is worked on or kept anew stands between two characters; the other copies stay
  cases action with
  | operate operation =>
    obtain ⟨answer, d, hperform, hd, -⟩ := operation.performed hfinder hcurrent
    refine ⟨{ bench with current := d }, ?_, List.forall_mem_cons.mpr ⟨hd, hcopies⟩⟩
    rw [step, hperform]
    rfl
  | cloneAt offset =>
    obtain ⟨text, copy, -, hclone, hcopy⟩ := cloneAt_within hcurrent offset
    refine ⟨{ bench with copies := bench.copies ++ [copy] }, ?_, ?_⟩
    · rw [step, hclone]
      rfl
    · exact List.forall_mem_cons.mpr ⟨hcurrent, List.forall_mem_append.mpr
        ⟨hcopies, List.forall_mem_singleton.mpr hcopy⟩⟩
  | save =>
    exact ⟨_, rfl, List.forall_mem_cons.mpr ⟨hcurrent, List.forall_mem_append.mpr
      ⟨hcopies, List.forall_mem_singleton.mpr hcurrent⟩⟩⟩
  | restore index =>
    refine ⟨_, rfl, List.forall_mem_cons.mpr ⟨?_, hcopies⟩⟩
    cases hcopy : bench.copies[index]? with
    | none => exact hcurrent
    | some copy => exact hcopies copy (List.mem_of_getElem? hcopy)

theorem run_within (hfinder : finder.FindsFirst) {bench : Bench} (h : bench.Within source)
    (actions : List Action) : ∃ next, bench.run finder actions = .ok next ∧ next.Within source := by
  induction actions generalizing bench with
  | nil => exact ⟨bench, rfl, h⟩
  | cons action actions ih =>
    obtain ⟨middle, hstep, hmiddle⟩ := step_within hfinder h action
    obtain ⟨next, hrun, hnext⟩ := ih hmiddle
    refine ⟨next, ?_, hnext⟩
    rw [run, List.foldlM_cons, hstep]
    exact hrun

/-- Whatever is done from the start of a text, no cut of it fails, every place that is worked on or
kept stands between two of its characters, and so does every place that the next operation comes to,
as its answer tells. -/
theorem run_sound (hfinder : finder.FindsFirst) (source : List Char) (actions : List Action) :
    ∃ bench, (start source).run finder actions = .ok bench ∧
      (∀ b ∈ bench.current :: bench.copies, b.source = source ∧ IsBoundary source b.position ∧
        b.position ≤ byteLength source) ∧
      (∀ operation, ∃ answer d, operation.perform finder bench.current = .ok (answer, d) ∧
        bench.current.Performed operation answer d) ∧
      ∀ offset, ∃ text copy, bench.current.advance offset = .ok (text, copy) ∧
        bench.current.cloneAt offset = .ok copy := by
  have hstart : (start source).Within source :=
    List.forall_mem_cons.mpr ⟨(Cursor.ofText source).within_bytes, by simp [start]⟩
  obtain ⟨bench, hrun, hbench⟩ := run_within hfinder hstart actions
  have hcurrent := hbench bench.current List.mem_cons_self
  refine ⟨bench, hrun, ?_, ?_, ?_⟩
  · intro b hb
    obtain ⟨hsource, hboundary⟩ := hbench b hb
    exact ⟨hsource, hboundary, hboundary.le⟩
  · intro operation
    obtain ⟨answer, d, hperform, -, hperformed⟩ := operation.performed hfinder hcurrent
    exact ⟨answer, d, hperform, hperformed⟩
  · intro offset
    obtain ⟨text, copy, hadvance, hclone, -⟩ := cloneAt_within hcurrent offset
    exact ⟨text, copy, hadvance, hclone⟩

/-- A literal is passed, and then the work goes on from the copy that was kept in front of it. -/
theorem run_sound_copy : ByteFinder.plain.FindsFirst ∧
    ∃ bench, (start ['é', '\x22', 'ü', '\x22', '(']).run .plain
        [.operate (.advance 1), .save, .operate (.matchQuoted true), .cloneAt 1, .restore 0,
          .operate (.jumpTo 4)] = .ok bench ∧
      bench.current.position = 5 ∧ bench.copies.map ByteCursor.position = [2, 7] ∧
      ∀ b ∈ bench.current :: bench.copies,
        IsBoundary ['é', '\x22', 'ü', '\x22', '('] b.position := by
  refine ⟨ByteFinder.plain_findsFirst, ?_⟩
  obtain ⟨bench, hrun, hplaces, -⟩ := run_sound ByteFinder.plain_findsFirst
    ['é', '\x22', 'ü', '\x22', '('] [.operate (.advance 1), .save, .operate (.matchQuoted true),
      .cloneAt 1, .restore 0, .operate (.jumpTo 4)]
  have hpositions : ((start ['é', '\x22', 'ü', '\x22', '(']).run .plain
      [.operate (.advance 1), .save, .operate (.matchQuoted true), .cloneAt 1, .restore 0,
        .operate (.jumpTo 4)]).toOption.map
      (fun bench => (bench.current.position, bench.copies.map ByteCursor.position)) =
      some (5, [2, 7]) := by
    decide +kernel
  rw [hrun] at hpositions
  obtain ⟨hcurrent, hcopies⟩ := Prod.mk.inj (Option.some.inj hpositions)
  exact ⟨bench, hrun, hcurrent, hcopies, fun b hb => (hplaces b hb).2.1⟩

end Bench

end DataTemplate
