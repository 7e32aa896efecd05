import Mathlib.Data.List.Forall2
import Lowering.Emit.Program
import Lowering.Proofs.Draft.Adds
import Lowering.Proofs.Emit.Walks

/-!
# Sites and paths

The site that a draft keeps while a program is written is put together by many steps: each node goes down and comes back,
blocks and functions open scopes and close them. What a site says is nevertheless a matter of the tree alone. At every node
the lineage is the path from the root, and the scopes are the blocks and functions on it.

A node can stand in a tree more than once, so the statements are about occurrences: nodes with the nodes above them.
Nodes are written in the order of the tree, each occurrence at most once, whichever ways of writing are registered.

* `Occurrence`, `Node.occurrences` — the places of a tree.
* `Occurrence.site` — the site of an occurrence, read off the nodes above it.
* `Gen.Passes` — the occurrences that a step comes to.
* `Site.Mirrors` — what a site tells about an occurrence.
-/

namespace Lowering

open Gen

-- ---------------------------------------------------------------------------
-- Occurrences
-- ---------------------------------------------------------------------------

/-- A node in a tree, with the nodes above it, the innermost first. -/
structure Occurrence where
  above : List Node
  node : Node

/-- All nodes of a tree that stands below other nodes, a node before the nodes below it. -/
def Node.occurrences (above : List Node) (n : Node) : List Occurrence :=
  ⟨above, n⟩ :: n.children.attach.flatMap (fun c => occurrences (n :: above) c.1)
termination_by sizeOf n
decreasing_by exact sizeOf_lt_of_mem_children c.2

theorem Node.occurrences_eq (above : List Node) (n : Node) :
    n.occurrences above = ⟨above, n⟩ :: n.children.flatMap (occurrences (n :: above)) := by
  rw [occurrences]
  congr 1
  rw [List.flatMap_subtype (g := occurrences (n :: above)) (fun _ _ => rfl), List.unattach_attach]

/-- What is read off the places of a tree, at the root and below it. -/
theorem Node.filterMap_occurrences {β : Type} (f : Occurrence → Option β) (above : List Node) (n : Node) :
    (n.occurrences above).filterMap f =
      (f ⟨above, n⟩).toList ++ n.children.flatMap fun c => (c.occurrences (n :: above)).filterMap f := by
  rw [occurrences_eq, List.filterMap_cons, List.filterMap_flatMap]
  cases f ⟨above, n⟩ <;> rfl

/-- Whether the nodes below a node stand in a scope of its own: blocks and functions. -/
def Node.opensScope (n : Node) : Bool :=
  n.tag = .block || n.tag = .funcDef

namespace Occurrence

/-- The blocks and functions around an occurrence. -/
def enclosing (o : Occurrence) : List Node :=
  o.above.filter Node.opensScope

/-- The scopes inside the given nodes, as they are before any return is noted. The outermost block is the entry point. -/
def scopesIn : List Node → List Scope
  | [] => []
  | n :: above =>
    if n.tag = .block then (if scopesIn above = [] then .top else .nested) :: scopesIn above
    else if n.tag = .funcDef then .function :: scopesIn above
    else scopesIn above

/-- The site inside the given nodes. -/
def siteIn (above : List Node) : Site :=
  ⟨above.map Node.tag, scopesIn above⟩

/-- The site of an occurrence. -/
def site (o : Occurrence) : Site :=
  (siteIn o.above).descend o.node.tag

theorem siteIn_cons {n : Node} (h : n.ownScopes = 0) (above : List Node) :
    siteIn (n :: above) = (siteIn above).descend n.tag := by
  have hTag : n.tag ≠ .block ∧ n.tag ≠ .funcDef := by
    cases n <;> simp_all [Node.ownScopes, Node.tag]
  simp [siteIn, scopesIn, hTag, Site.descend]

-- Below a root block, the scopes are that of the root and, inside it, one for each block or function on the way down.

/-- The scope of a block or a function that is not the root. -/
def innerScope (n : Node) : Scope :=
  if n.tag = .block then .nested else .function

theorem scopesIn_append_root {root : Node} (hRoot : root.tag = .block) (between : List Node) :
    scopesIn (between ++ [root]) = (between.filter Node.opensScope).map innerScope ++ [Scope.top] := by
  induction between with
  | nil => simp [scopesIn, hRoot]
  | cons n between ih =>
    rw [List.cons_append, scopesIn, ih]
    by_cases hBlock : n.tag = .block
    · simp [hBlock, Node.opensScope, innerScope]
    · by_cases hFunction : n.tag = .funcDef
      · simp [hFunction, Node.opensScope, innerScope]
      · simp [hBlock, hFunction, Node.opensScope]

theorem above_of_mem {o : Occurrence} {n : Node} {above : List Node} (h : o ∈ n.occurrences above) :
    o = ⟨above, n⟩ ∨ ∃ between, o.above = between ++ n :: above := by
  induction n using Node.childInduction generalizing above with
  | step n ih =>
    rw [Node.occurrences_eq, List.mem_cons] at h
    rcases h with h | h
    · exact Or.inl h
    · obtain ⟨c, hc, hMem⟩ := List.mem_flatMap.mp h
      right
      rcases ih c hc hMem with rfl | ⟨between, hAbove⟩
      · exact ⟨[], rfl⟩
      · exact ⟨between ++ [c], by rw [hAbove, List.append_assoc, List.singleton_append]⟩

end Occurrence

-- ---------------------------------------------------------------------------
-- Sites up to returns
-- ---------------------------------------------------------------------------

namespace Site

/-- The site without the returns noted in its scopes. -/
def plain (s : Site) : Site :=
  { s with scopes := s.scopes.map (fun c => { c with hasReturn := false }) }

theorem plain_markReturn (s : Site) : s.markReturn.plain = s.plain := by
  rcases s with ⟨lineage, _ | ⟨c, cs⟩⟩ <;> rfl

theorem plain_descend (s : Site) (tag : Tag) : (s.descend tag).plain = s.plain.descend tag := rfl

theorem plain_enter (s : Site) (c : Scope) : (s.enter c).plain = s.plain.enter { c with hasReturn := false } := rfl

/-- Two sites that differ only in returns are at the same depth. -/
theorem depth_plain (s : Site) : s.plain.depth = s.depth :=
  List.length_map ..

theorem isTop_plain (s : Site) : s.plain.isTop = s.isTop := by
  rcases s with ⟨lineage, _ | ⟨c, cs⟩⟩ <;> rfl

theorem isMain_plain (s : Site) : s.plain.isMain = s.isMain := by
  rcases s with ⟨lineage, _ | ⟨c, cs⟩⟩ <;> rfl

theorem inMain_plain (s : Site) : s.plain.inMain = s.inMain := by
  obtain ⟨lineage, scopes⟩ := s
  induction scopes with
  | nil => rfl
  | cons c cs ih =>
    simp only [inMain, plain, List.map_cons, List.find?_cons] at ih ⊢
    split
    · rfl
    · exact ih

end Site

-- ---------------------------------------------------------------------------
-- What a step comes to
-- ---------------------------------------------------------------------------

namespace Draft

/-- The nodes that have been written so far or are being written, oldest first, each with its site. -/
def trail (d : Draft) : List (Node × Site) :=
  (d.events.reverse.filterMap Event.dispatch?).map (fun e => (e.1, e.2.plain))

theorem trail_note_of_none (d : Draft) {e : Event} (h : e.dispatch? = none) : (d.note e).trail = d.trail := by
  simp [trail, note, h]

theorem trail_note_dispatch (d : Draft) (n : Node) (s : Site) :
    (d.note (.dispatch n s)).trail = d.trail ++ [(n, s.plain)] := by
  simp [trail, note, Event.dispatch?]

/-- The second draft is at the same site as the first, and no node has been written in between. -/
structure Rests (d e : Draft) : Prop where
  site : e.site = d.site
  trail : e.trail = d.trail

theorem Rests.trans {d e f : Draft} (h : d.Rests e) (h' : e.Rests f) : d.Rests f :=
  ⟨h'.site.trans h.site, h'.trail.trans h.trail⟩

theorem rests_addHeader (d : Draft) (header : String) : d.Rests (d.addHeader header) := by
  unfold addHeader
  split
  · exact ⟨rfl, rfl⟩
  · exact ⟨rfl, trail_note_of_none { d with headers := d.headers ++ [header] } rfl⟩

theorem rests_markSupport (d : Draft) (s : Support) : d.Rests (d.markSupport s) :=
  ⟨rfl, trail_note_of_none { d with support := d.support ++ [s] } rfl⟩

theorem rests_addTo (d : Draft) (x : Section) (text : String) : d.Rests (d.addTo x text) :=
  ⟨rfl, rfl⟩

theorem rests_addStringRecord (d : Draft) : d.Rests d.addStringRecord := by
  unfold addStringRecord
  split
  · exact ⟨rfl, rfl⟩
  · exact ((d.rests_markSupport .string).trans (rests_addHeader _ _)).trans (rests_addTo _ _ _)

theorem rests_addSupport (d : Draft) (s : Support) : d.Rests (d.addSupport s) := by
  cases s with
  | string => exact d.rests_addStringRecord
  | stringPrint =>
    unfold addSupport addStringPrinter
    dsimp only
    split
    · exact ⟨rfl, rfl⟩
    · exact (((d.rests_markSupport .stringPrint).trans (rests_addStringRecord _)).trans (rests_addHeader _ _)).trans
        (rests_addTo _ _ _)

/-- How a step that comes to the occurrences `os` may end, from the draft `d`. After success the site is the same. -/
def Passed {α : Type} (d : Draft) (os : List Occurrence) : EStateM.Result Fault Draft α → Prop
  | .ok _ e => e.site.plain = d.site.plain ∧ e.trail = d.trail ++ os.map (fun o => (o.node, o.site))
  | .error _ e => e.trail = d.trail ++ os.map (fun o => (o.node, o.site))

end Draft

namespace Gen

variable {α β : Type} {s : Site} {os os' : List Occurrence}

/-- At the site `s`, the step comes to occurrences among `os` only, in their order, each at most once. -/
def Passes (act : Gen α) (s : Site) (os : List Occurrence) : Prop :=
  ∀ d : Draft, d.site.plain = s → ∃ seen, seen.Sublist os ∧ d.Passed seen (act d)

namespace Passes

theorem weaken {act : Gen α} (h : Passes act s os) (hSublist : os.Sublist os') : Passes act s os' := by
  intro d hSite
  obtain ⟨seen, hSeen, hPassed⟩ := h d hSite
  exact ⟨seen, hSeen.trans hSublist, hPassed⟩

theorem change {f : Draft → Draft} (h : ∀ d : Draft, (f d).site.plain = d.site.plain ∧ (f d).trail = d.trail) :
    Passes (modify f) s [] :=
  fun d _ => ⟨[], List.Sublist.slnil, (h d).1, (h d).2.trans (List.append_nil _).symm⟩

theorem request {f : Draft → Draft} (h : ∀ d : Draft, d.Rests (f d)) : Passes (modify f) s [] :=
  change fun d => ⟨congrArg Site.plain (h d).site, (h d).trail⟩

theorem pure (a : α) : Passes (Pure.pure a) s [] :=
  fun _ _ => ⟨[], List.Sublist.slnil, rfl, (List.append_nil _).symm⟩

theorem fail (span : Span) (cause : Cause) : Passes (Gen.fail span cause : Gen α) s [] :=
  fun _ _ => ⟨[], List.Sublist.slnil, (List.append_nil _).symm⟩

theorem onPage (f : Page → Page) : Passes (Gen.onPage f) s [] :=
  change fun _ => ⟨rfl, rfl⟩

theorem bind {act : Gen α} {f : α → Gen β} (h : Passes act s os) (h' : ∀ a, Passes (f a) s os') :
    Passes (act >>= f) s (os ++ os') := by
  intro d hSite
  obtain ⟨seen, hSeen, hPassed⟩ := h d hSite
  rw [bind_apply]
  cases hRun : act d with
  | error fault e =>
    rw [hRun] at hPassed
    exact ⟨seen, hSeen.trans (List.sublist_append_left os os'), hPassed⟩
  | ok a e =>
    rw [hRun] at hPassed
    obtain ⟨hPlain, hTrail⟩ := hPassed
    obtain ⟨seen', hSeen', hPassed'⟩ := h' a e (hPlain.trans hSite)
    refine ⟨seen ++ seen', hSeen.append hSeen', ?_⟩
    dsimp only
    cases hRest : f a e with
    | error fault e' =>
      rw [hRest] at hPassed'
      have hTrail' : e'.trail = e.trail ++ seen'.map (fun o => (o.node, o.site)) := hPassed'
      show e'.trail = d.trail ++ (seen ++ seen').map (fun o => (o.node, o.site))
      rw [hTrail', hTrail, List.map_append, List.append_assoc]
    | ok b e' =>
      rw [hRest] at hPassed'
      obtain ⟨hPlain', hTrail'⟩ := hPassed'
      refine ⟨hPlain'.trans hPlain, ?_⟩
      rw [hTrail', hTrail, List.map_append, List.append_assoc]

/-- A step that comes to nothing, before another one. -/
theorem first {act : Gen α} {f : α → Gen β} (h : Passes act s []) (h' : ∀ a, Passes (f a) s os) :
    Passes (act >>= f) s os :=
  h.bind h'

/-- A step that comes to nothing, after another one. -/
theorem last {act : Gen α} {f : α → Gen β} (h : Passes act s os) (h' : ∀ a, Passes (f a) s []) :
    Passes (act >>= f) s os := by
  simpa using h.bind h'

theorem refuseIf {c : Prop} [Decidable c] (span : Span) (cause : Cause) {rest : Gen α} (h : Passes rest s os) :
    Passes (if c then Gen.fail span cause >>= fun _ : Unit => rest else rest) s os := by
  split
  · exact (fail span cause).first fun _ => h
  · exact h

theorem symbol (name : String) (owner : Span) : Passes (reserveSymbol name owner) s [] := by
  intro d hSite
  rw [reserveSymbol_apply]
  cases d.symbols.lookup name with
  | some first => exact fail owner _ d hSite
  | none => exact change (f := fun d => { d with symbols := (name, owner) :: d.symbols }) (fun _ => ⟨rfl, rfl⟩) d hSite

/-- A step between two changes of the draft, at the site to which the first of them leads. -/
theorem between {act : Gen α} {before after : Draft → Draft} {s' : Site} (h : Passes act s' os)
    (hBefore : ∀ d : Draft, d.site.plain = s → (before d).site.plain = s' ∧ (before d).trail = d.trail)
    (hAfter : ∀ e : Draft, (after e).trail = e.trail ∧ (e.site.plain = s' → (after e).site.plain = s)) :
    Passes (Gen.between before after act) s os := by
  intro d hSite
  obtain ⟨hInner, hTrail⟩ := hBefore d hSite
  obtain ⟨seen, hSeen, hPassed⟩ := h (before d) hInner
  refine ⟨seen, hSeen, ?_⟩
  rw [Gen.between]
  cases hRun : act (before d) with
  | error fault e =>
    rw [hRun] at hPassed
    have hError : e.trail = (before d).trail ++ seen.map (fun o => (o.node, o.site)) := hPassed
    exact (hAfter e).1.trans (hError.trans (by rw [hTrail]))
  | ok a e =>
    rw [hRun] at hPassed
    refine ⟨((hAfter e).2 (hPassed.1.trans hInner)).trans hSite.symm, ?_⟩
    rw [(hAfter e).1, hPassed.2, hTrail]

theorem indented {act : Gen Unit} (h : Passes act s os) : Passes (Gen.indented act) s os :=
  h.between (fun _ hSite => ⟨hSite, rfl⟩) (fun _ => ⟨rfl, id⟩)

theorem below {act : Gen Unit} {tag : Tag} (h : Passes act (s.descend tag) os) : Passes (Gen.below tag act) s os := by
  refine h.between (fun d hSite => ⟨?_, rfl⟩) (fun e => ⟨rfl, fun hSite => ?_⟩)
  · rw [Site.plain_descend, hSite]
  · exact congrArg Site.ascend hSite

theorem onOwnPage {act : Gen Unit} (h : Passes act s os) : Passes (Gen.onOwnPage act) s os := by
  intro d hSite
  obtain ⟨seen, hSeen, hPassed⟩ := h { d with page := Page.blank d.width } hSite
  refine ⟨seen, hSeen, ?_⟩
  rw [Gen.onOwnPage]
  cases hRun : act { d with page := Page.blank d.width } with
  | error fault e =>
    rw [hRun] at hPassed
    exact hPassed
  | ok a e =>
    rw [hRun] at hPassed
    exact hPassed

-- ---------------------------------------------------------------------------
-- Scopes
-- ---------------------------------------------------------------------------

/-- A site inside a scope ends with that scope, whatever returns have been noted. -/
theorem exists_enter {t : Site} {c : Scope} (h : t.plain = s.enter c) :
    ∃ (c' : Scope) (t' : Site), t = t'.enter c' ∧ t'.plain = s := by
  obtain ⟨lineage, scopes⟩ := t
  cases scopes with
  | nil => cases congrArg Site.scopes h
  | cons c' cs => exact ⟨c', ⟨lineage, cs⟩, rfl, congrArg Site.leave h⟩

/-- Inside a scope that has been opened at `s`, success leads back to that scope. -/
theorem inside {act : Gen Unit} {c : Scope} (h : Passes act (s.enter c) os) (hReturn : c.hasReturn = false) {d : Draft}
    (hSite : d.site.plain = s) :
    ∃ seen : List Occurrence, seen.Sublist os ∧ match act { d with site := d.site.enter c } with
      | .ok _ e => (∃ (c' : Scope) (t : Site), e.site = t.enter c' ∧ t.plain = s) ∧
          e.trail = d.trail ++ seen.map (fun o => (o.node, o.site))
      | .error _ e => e.trail = d.trail ++ seen.map (fun o => (o.node, o.site)) := by
  have hEnter : (d.site.enter c).plain = s.enter c := by
    rw [Site.plain_enter, hSite, ← hReturn]
  obtain ⟨seen, hSeen, hPassed⟩ := h { d with site := d.site.enter c } hEnter
  refine ⟨seen, hSeen, ?_⟩
  cases hRun : act { d with site := d.site.enter c } with
  | error fault e =>
    rw [hRun] at hPassed
    exact hPassed
  | ok a e =>
    rw [hRun] at hPassed
    exact ⟨exists_enter (hPassed.1.trans hEnter), hPassed.2⟩

theorem inOpened {act : Gen Unit} {c : Scope} (h : Passes act (s.enter c) os) (hReturn : c.hasReturn = false)
    (span : Span) :
    Passes (openScope c >>= fun _ => act >>= fun _ => closeScope span >>= fun _ => Pure.pure ()) s os := by
  intro d hSite
  obtain ⟨seen, hSeen, hInside⟩ := h.inside hReturn hSite
  refine ⟨seen, hSeen, ?_⟩
  have hOpen : (openScope c >>= fun _ => act >>= fun _ => closeScope span >>= fun _ => Pure.pure () : Gen Unit) d =
      (act >>= fun _ => closeScope span >>= fun _ => Pure.pure () : Gen Unit) { d with site := d.site.enter c } := rfl
  rw [hOpen, bind_apply]
  cases hRun : act { d with site := d.site.enter c } with
  | error fault e =>
    rw [hRun] at hInside
    exact hInside
  | ok a e =>
    rw [hRun] at hInside
    obtain ⟨⟨c', t, hEq, hPlain⟩, hTrail⟩ := hInside
    dsimp only
    rw [bind_apply, closeScope_apply span e hEq]
    exact ⟨hPlain.trans hSite.symm, hTrail⟩

/-- Whether or not there is a scope to close, no node is written. -/
theorem closeScope_cases (span : Span) (d : Draft) :
    (∃ fault, closeScope span d = .error fault d) ∨
      ∃ (c : Scope) (t : Site), closeScope span d = .ok c { d with site := t } := by
  rcases d with ⟨_, _, _, _, _, _, ⟨lineage, _ | ⟨c, cs⟩⟩, _, _⟩
  · exact Or.inl ⟨_, rfl⟩
  · exact Or.inr ⟨c, ⟨lineage, cs⟩, rfl⟩

theorem inScope {act : Gen Unit} {c : Scope} (h : Passes act (s.enter c) os) (hReturn : c.hasReturn = false)
    (span : Span) : Passes (Gen.inScope c span act) s os := by
  intro d hSite
  obtain ⟨seen, hSeen, hInside⟩ := h.inside hReturn hSite
  refine ⟨seen, hSeen, ?_⟩
  have hOpen : Gen.inScope c span act d = andFinally act (closeScope span) { d with site := d.site.enter c } := rfl
  rw [hOpen, andFinally]
  cases hRun : act { d with site := d.site.enter c } with
  | error fault e =>
    rw [hRun] at hInside
    dsimp only
    obtain ⟨f, hClose⟩ | ⟨c', t, hClose⟩ := closeScope_cases span e
    · rw [hClose]
      exact hInside
    · rw [hClose]
      exact hInside
  | ok a e =>
    rw [hRun] at hInside
    obtain ⟨⟨c', t, hEq, hPlain⟩, hTrail⟩ := hInside
    dsimp only
    rw [closeScope_apply span e hEq]
    exact ⟨hPlain.trans hSite.symm, hTrail⟩

end Passes

end Gen

-- ---------------------------------------------------------------------------
-- Nodes
-- ---------------------------------------------------------------------------

variable {r : Registry}

theorem sublist_flatMap {α β : Type} {l l' : List α} (h : l.Sublist l') (f : α → List β) :
    (l.flatMap f).Sublist (l'.flatMap f) := by
  induction h with
  | slnil => exact .slnil
  | cons a _ ih => exact ih.trans (List.sublist_append_right (f a) _)
  | cons_cons a _ ih => exact ih.append_left (f a)

/-- Steps that are made of elementary steps and of nodes come to the occurrences to which the nodes come. -/
theorem Walks.passes {α : Type} {ns : List Node} {act : Gen α} {s : Site} {f : Node → List Occurrence}
    (h : Walks r ns act) (hNodes : ∀ n ∈ ns, Passes (visit r n) s (f n)) : Passes act s (ns.flatMap f) := by
  induction h with
  | pure a => exact .pure a
  | look h ih => exact fun d hSite => ih d.view hNodes d hSite
  | fail span _ => exact .fail span _
  | page _ => exact .onPage _
  | note hNone _ => exact .change fun d => ⟨rfl, d.trail_note_of_none hNone⟩
  | header name => exact .request fun d => d.rests_addHeader name
  | support x => exact .request fun d => d.rests_addSupport x
  | symbol name owner => exact .symbol name owner
  | forward line => exact .request fun d => d.rests_addTo .forwardDeclarations line
  | definition text => exact .request fun d => d.rests_addTo .definitions _
  | markReturn => exact .change fun d => ⟨d.site.plain_markReturn, rfl⟩
  | node n =>
    rw [List.flatMap_singleton]
    exact hNodes n (List.mem_singleton_self n)
  | bind h h' ih ih' =>
    obtain ⟨hFirst, hSecond⟩ := List.forall_mem_append.mp hNodes
    rw [List.flatMap_append]
    exact (ih hFirst).bind fun a => ih' a hSecond
  | indented h ih => exact (ih hNodes).indented
  | pushed h h' ih ih' =>
    obtain ⟨hFirst, hSecond⟩ := List.forall_mem_append.mp hNodes
    rw [List.flatMap_append]
    exact (Passes.onPage _).first fun _ => (ih hFirst).bind fun _ => (Passes.onPage _).first fun _ => ih' hSecond
  | weaken h hSublist ih =>
    exact (ih fun n hn => hNodes n (hSublist.subset hn)).weaken (sublist_flatMap hSublist f)

theorem Walks.passes_of_nil {α : Type} {act : Gen α} {s : Site} (h : Walks r [] act) : Passes act s [] :=
  h.passes (f := fun _ => []) (by simp)

/-- Two steps that differ only in what they ask about the site agree at a site. -/
theorem Gen.Passes.site_bind {α : Type} {f : Site → Gen α} {s : Site} {os : List Occurrence}
    (h : ∀ t : Site, t.plain = s → Passes (f t) s os) : Passes (Gen.site >>= f) s os :=
  fun d hSite => h d.site hSite d hSite

/-- The statements of a block stand inside the block. -/
theorem block_passes {statements : List Node} {span : Span} {above : List Node}
    (h : ∀ n ∈ statements, Passes (visit r n) (Occurrence.siteIn (.block statements span :: above))
      (n.occurrences (.block statements span :: above))) :
    Passes (Block.emit (statements.map r.part) span) ((Occurrence.siteIn above).descend .block)
      (statements.flatMap (Node.occurrences (.block statements span :: above))) := by
  have hBlock : ∀ c : Scope, c.hasReturn = false →
      Occurrence.siteIn (.block statements span :: above) = ((Occurrence.siteIn above).descend .block).enter c →
      Passes (Block.scopedBlock c (statements.map r.part) span) ((Occurrence.siteIn above).descend .block)
        (statements.flatMap (Node.occurrences (.block statements span :: above))) := by
    intro c hReturn hEnter
    have hStatements := (Walks.statements statements).passes h
    have hInner := (hStatements.last fun _ => (Walks.endMain (r := r)).passes_of_nil)
    rw [hEnter] at hInner
    have hAll := hInner.inOpened hReturn span
    simp only [bind_assoc] at hAll
    exact hAll
  refine Gen.Passes.site_bind fun t hPlain => ?_
  have hDepth : t.depth = (Occurrence.scopesIn above).length := by
    rw [← t.depth_plain, hPlain]
    rfl
  have hLine : ∀ text : String, Passes (writeLine text) ((Occurrence.siteIn above).descend .block) [] :=
    fun text => (Walks.writeLine (r := r) text).passes_of_nil
  by_cases hEmpty : Occurrence.scopesIn above = []
  · rw [if_pos (by rw [hDepth, hEmpty, List.length_nil])]
    refine (hLine _).first fun _ => (Passes.onPage _).first fun _ => Passes.last ?_ fun _ =>
      (Passes.onPage _).first fun _ => hLine _
    refine hBlock .top rfl ?_
    simp [Occurrence.siteIn, Occurrence.scopesIn, Site.descend, Site.enter, Node.tag, hEmpty]
  · rw [if_neg (by rw [hDepth, List.length_eq_zero_iff]; exact hEmpty)]
    refine hBlock .nested rfl ?_
    simp [Occurrence.siteIn, Occurrence.scopesIn, Site.descend, Site.enter, Node.tag, hEmpty]

/-- The body of a function stands inside the function. -/
theorem function_passes {visibility : Visibility} {name : String} {params : List TypedName} {returns : List String}
    {body : Node} {span : Span} {above : List Node} {os : List Occurrence}
    (h : Passes (visit r body) (((Occurrence.siteIn above).descend .funcDef).enter .function) os) :
    Passes (FunctionDef.emit visibility name params returns (r.part body) span)
      ((Occurrence.siteIn above).descend .funcDef) os := by
  have hLine : ∀ text : String, Passes (writeLine text) ((Occurrence.siteIn above).descend .funcDef) [] :=
    fun text => (Walks.writeLine (r := r) text).passes_of_nil
  refine Gen.Passes.refuseIf span _ ((Walks.site (r := r)).passes_of_nil.first fun s => Gen.Passes.refuseIf span _ ?_)
  refine (Walks.returnType (r := r) returns span).passes_of_nil.first fun result => ?_
  have hParams : Walks r [] (params.mapM (FunctionDef.param span)) := Walks.mapM fun q _ => Walks.param span q
  refine hParams.passes_of_nil.first fun spelled => ?_
  refine (Walks.note (r := r) (e := .function name) rfl rfl).passes_of_nil.first fun _ => ?_
  refine (Walks.forward (r := r) _).passes_of_nil.first fun _ => ?_
  refine Passes.last (Passes.onOwnPage ?_) fun page => (Walks.definition (r := r) page.text).passes_of_nil
  exact (hLine _).first fun _ => (Passes.onPage _).first fun _ => (h.inScope rfl span).last fun _ =>
    (Passes.onPage _).first fun _ => hLine _

/-- A node is come to before the nodes below it. Those are reached only if it is written in its own way. -/
theorem dispatch_passes {n : Node} {own : Gen Unit} {above : List Node} {os : List Occurrence}
    (h : Passes own ((Occurrence.siteIn above).descend n.tag) os) :
    Passes (dispatch r n own) (Occurrence.siteIn above) (⟨above, n⟩ :: os) := by
  unfold dispatch
  split
  · exact (Passes.fail _ _).weaken (List.nil_sublist _)
  · rename_i handler hFind
    have hNote : Passes (noteDispatch n) (Occurrence.siteIn above) [⟨above, n⟩] := by
      intro d hSite
      refine ⟨_, List.Sublist.refl _, rfl, ?_⟩
      rw [Draft.trail_note_dispatch, Site.plain_descend, hSite]
      rfl
    refine hNote.bind fun _ => Passes.below ?_
    cases handler with
    | standard tag =>
      unfold Handler.run
      dsimp only
      split
      · exact h
      · exact (Walks.mismatch (r := r) tag n).passes_of_nil.weaken (List.nil_sublist _)
    | rule act =>
      intro d hSite
      refine ⟨[], List.nil_sublist _, ?_⟩
      unfold Handler.run
      dsimp only
      split
      · exact ⟨rfl, (List.append_nil _).symm⟩
      · exact (List.append_nil _).symm

theorem visit_passes (n : Node) (above : List Node) :
    Passes (visit r n) (Occurrence.siteIn above) (n.occurrences above) := by
  induction n using Node.childInduction generalizing above with
  | step n ih =>
    obtain ⟨own, hVisit, hWay⟩ := n.exists_way r
    rw [hVisit, Node.occurrences_eq]
    refine dispatch_passes ?_
    cases hWay with
    | plain hOwn h =>
      rw [← Occurrence.siteIn_cons hOwn]
      exact h.passes fun c hc => ih c hc (n :: above)
    | block statements span => exact block_passes fun c hc => ih c hc _
    | function visibility name params returns body span =>
      rw [Node.children, List.flatMap_singleton]
      have hBody := ih body (List.mem_singleton_self body) (.funcDef visibility name params returns body span :: above)
      exact function_passes hBody

-- ---------------------------------------------------------------------------
-- Programs
-- ---------------------------------------------------------------------------

/-- What a site tells about an occurrence in the tree below `root`. -/
structure Site.Mirrors (s : Site) (root : Node) (o : Occurrence) : Prop where
  lineage : s.lineage = o.node.tag :: o.above.map Node.tag
  parent : s.parent? = o.above.head?.map Node.tag
  depth : s.depth = o.enclosing.length
  top : s.isTop = true ↔ o.enclosing = [root]
  main : s.isMain = true ↔ o.enclosing = [root]
  inMain : s.inMain = true ↔ o.enclosing ≠ [] ∧ ∀ n ∈ o.enclosing, n.tag ≠ .funcDef

theorem Site.mirrors_of_plain {s : Site} {root : Node} {o : Occurrence} (h : s.plain.Mirrors root o) :
    s.Mirrors root o where
  lineage := h.lineage
  parent := h.parent
  depth := s.depth_plain ▸ h.depth
  top := s.isTop_plain ▸ h.top
  main := s.isMain_plain ▸ h.main
  inMain := s.inMain_plain ▸ h.inMain

theorem Occurrence.parent?_site (o : Occurrence) : o.site.parent? = o.above.head?.map Node.tag := by
  obtain ⟨_ | ⟨n, above⟩, node⟩ := o <;> rfl

/-- The innermost function around a place is the entry point if there is no function between the two. -/
theorem Occurrence.find?_innerScope (ns : List Node) (hOpens : ∀ n ∈ ns, n.opensScope = true) :
    ((ns.map innerScope ++ [Scope.top]).find? (fun c => c.isMain || c.isFunction)).any Scope.isMain = true ↔
      ∀ n ∈ ns, n.tag ≠ .funcDef := by
  induction ns with
  | nil => simp [Scope.top]
  | cons n ns ih =>
    have ih := ih fun m hm => hOpens m (List.mem_cons_of_mem _ hm)
    have hOpen := hOpens n (List.mem_cons_self ..)
    by_cases hBlock : n.tag = .block
    · simpa [innerScope, hBlock, Scope.nested] using ih
    · have hFunction : n.tag = .funcDef := by simpa [Node.opensScope, hBlock] using hOpen
      simp [innerScope, hFunction, Scope.function]

theorem Occurrence.site_mirrors {root : Node} (hRoot : root.tag = .block) {o : Occurrence}
    (h : o ∈ root.occurrences []) : o.site.Mirrors root o := by
  rcases above_of_mem h with rfl | ⟨between, hAbove⟩
  · refine ⟨rfl, rfl, rfl, ?_, ?_, ?_⟩ <;> simp [site, siteIn, scopesIn, enclosing, Site.descend, Site.isTop, Site.isMain,
      Site.inMain, Site.scope?]
  · have hScopes : o.site.scopes = (between.filter Node.opensScope).map innerScope ++ [Scope.top] := by
      rw [site, Site.descend, siteIn, hAbove]
      exact scopesIn_append_root hRoot between
    have hEnclosing : o.enclosing = between.filter Node.opensScope ++ [root] := by
      rw [enclosing, hAbove, List.filter_append]
      simp [Node.opensScope, hRoot]
    have hOpens : ∀ n ∈ between.filter Node.opensScope, n.opensScope = true := fun n hn => (List.mem_filter.mp hn).2
    -- only the scopes next to the place tell the root from what is inside it
    have hInner : ∀ n, (innerScope n).isTop = false ∧ (innerScope n).isMain = false := by
      intro n
      unfold innerScope
      split <;> exact ⟨rfl, rfl⟩
    refine ⟨rfl, o.parent?_site, ?_, ?_, ?_, ?_⟩
    · rw [Site.depth, hScopes, hEnclosing]
      simp
    · rw [Site.isTop, Site.scope?, hScopes, hEnclosing]
      cases between.filter Node.opensScope with
      | nil => simp [Scope.top]
      | cons n ns => simp [hInner]
    · rw [Site.isMain, Site.scope?, hScopes, hEnclosing]
      cases between.filter Node.opensScope with
      | nil => simp [Scope.top]
      | cons n ns => simp [hInner]
    · rw [Site.inMain, hScopes, hEnclosing, find?_innerScope _ hOpens, List.forall_mem_append]
      simp [hRoot]

/-- Sites that differ from those of occurrences only in returns mirror these occurrences. -/
theorem Site.forall₂_mirrors {root : Node} {es : List (Node × Site)} {os : List Occurrence}
    (hTrail : es.map (fun e => (e.1, e.2.plain)) = os.map (fun o => (o.node, o.site)))
    (hMirrors : ∀ o ∈ os, o.site.Mirrors root o) :
    List.Forall₂ (fun e o => e.1 = o.node ∧ e.2.Mirrors root o) es os := by
  induction es generalizing os with
  | nil =>
    cases os with
    | nil => exact .nil
    | cons o os => cases hTrail
  | cons e es ih =>
    cases os with
    | nil => cases hTrail
    | cons o os =>
      obtain ⟨hHead, hTail⟩ := List.cons.inj hTrail
      obtain ⟨hNode, hSite⟩ := Prod.mk.inj hHead
      obtain ⟨hFirst, hRest⟩ := List.forall_mem_cons.mp hMirrors
      exact .cons ⟨hNode, mirrors_of_plain (hSite ▸ hFirst)⟩ (ih hTail hRest)

/-- In every style and for every tree: the nodes come to are occurrences of the tree in their order, each at most once,
and the site noted for a node tells the path to it and the blocks and functions around it. -/
theorem dispatched_sites_mirror_paths (style : Style) (root : Node) :
    List.SublistForall₂ (fun e o => e.1 = o.node ∧ e.2.Mirrors root o)
      ((generate style root).events.filterMap Event.dispatch?) (root.occurrences []) := by
  by_cases hRoot : root.tag = .block
  · have hPasses := visit_passes (r := style.registry) root [] (Draft.blank style.width) rfl
    obtain ⟨seen, hSeen, hPassed⟩ := hPasses
    have hTrail : ((generate style root).events.filterMap Event.dispatch?).map (fun e => (e.1, e.2.plain)) =
        seen.map (fun o => (o.node, o.site)) := by
      rw [generate, if_neg (not_not.mpr hRoot)]
      cases hRun : visit style.registry root (Draft.blank style.width) with
      | error fault e =>
        rw [hRun] at hPassed
        exact hPassed
      | ok a e =>
        rw [hRun] at hPassed
        exact (e.trail_note_of_none rfl).trans hPassed.2
    have hMirrors : ∀ o ∈ seen, o.site.Mirrors root o := fun o ho => o.site_mirrors hRoot (hSeen.subset ho)
    exact List.sublistForall₂_iff.mpr ⟨seen, Site.forall₂_mirrors hTrail hMirrors, hSeen⟩
  · rw [generate, if_pos hRoot]
    exact .nil

-- A function in a program that ends with a return. Inside the function, the entry point is not the innermost function.
example :
    let body : Node := .block [.breakLoop ⟨3, 4⟩] ⟨2, 5⟩
    let root : Node := .block [.funcDef .scoped "f" [] [] body ⟨1, 6⟩, .ret [.boolean true ⟨8, 9⟩] ⟨7, 9⟩] ⟨0, 10⟩
    ((generate {} root).events.filterMap Event.dispatch?).map (fun e => (e.1.tag, e.2.parent?, e.2.depth, e.2.inMain)) =
      [(.block, none, 0, false), (.funcDef, some .block, 1, true), (.block, some .funcDef, 2, false),
        (.breakLoop, some .block, 3, false), (.ret, some .block, 1, true), (.boolean, some .ret, 1, true)] := by
  rfl

end Lowering
