import RuleCascade.Proofs.HierarchicalResolution
import RuleCascade.Resolver

/-! # Histories of a resolver

    A client calls the published snapshot, keeps snapshots for later, calls
    those, and reloads. Caches fill at different times, and the reloads between
    two calls may fail.

    All of this can be foreseen from documents alone. A ledger holds the last
    document that was loaded and, for every snapshot that was kept, the
    document of that time; a reply is what a snapshot would reply that is built
    from the document for this one call.

    The invariant is `Follows`. Behind the published snapshot and behind every
    handle stands a live snapshot whose cache is coherent with the document of
    the ledger. A call changes the cache of one live snapshot, and a reload
    changes none: it puts a fresh one in place of the published snapshot, or
    leaves everything as it was.

    Main statement: `performAll_ofDocument`.
-/

namespace RuleCascade

/-! ## Section 1: Clients -/

/-- A step of a client. -/
inductive Action where
  /-- A call on the published snapshot. -/
  | call (call : Call)
  /-- Keep the published snapshot. -/
  | keep
  /-- A call on a kept snapshot; they are numbered in the order of keeping. -/
  | callKept (index : Nat) (call : Call)
  | reload (d : Document)
  | tryReload (d : Document)

/-- What a client is told, with configurations of the type `α`. -/
inductive Response (α : Type) where
  | replied (reply : Reply α)
  | kept
  /-- So many snapshots have not been kept. -/
  | unknown
  | reloaded (result : Except CascadeError Unit)
  | tried (succeeded : Bool)

/-- The response with a function applied to its configurations. -/
def Response.map {α β : Type} (f : α → β) : Response α → Response β
  | .replied reply => .replied (reply.map f)
  | .kept => .kept
  | .unknown => .unknown
  | .reloaded result => .reloaded result
  | .tried succeeded => .tried succeeded

/-- Serve a call with the snapshot of a handle. -/
def Resolver.perform (r : Resolver) (h : Resolver.Handle) : Call → Reply Answer × Resolver
  | .resolve path =>
    let (answer, next) := r.resolve h path
    (.one answer, next)
  | .resolveAll paths =>
    let (answers, next) := r.resolveAll h paths
    (.many answers, next)
  | .ask query => (.told ((r.live h).snapshot.tell query), r)

/-- A resolver with the snapshots that its client has kept, oldest first. -/
structure Client where
  resolver : Resolver
  kept : List Resolver.Handle := []

namespace Client

/-- Take one step. -/
def perform (c : Client) : Action → Response Answer × Client
  | .call call =>
    let (reply, next) := c.resolver.perform c.resolver.handle call
    (.replied reply, { c with resolver := next })
  | .keep => (.kept, { c with kept := c.kept ++ [c.resolver.handle] })
  | .callKept index call =>
    match c.kept[index]? with
    | none => (.unknown, c)
    | some h =>
      let (reply, next) := c.resolver.perform h call
      (.replied reply, { c with resolver := next })
  | .reload d =>
    match c.resolver.reload d with
    | .ok next => (.reloaded (.ok ()), { c with resolver := next })
    | .error e => (.reloaded (.error e), c)
  | .tryReload d =>
    let (succeeded, next) := c.resolver.tryReload d
    (.tried succeeded, { c with resolver := next })

/-- Take steps one after another. -/
def performAll (c : Client) : List Action → List (Response Answer) × Client
  | [] => ([], c)
  | action :: rest =>
    let (response, next) := c.perform action
    let (responses, last) := next.performAll rest
    (response :: responses, last)

end Client

/-! ## Section 2: Ledgers -/

/-- The reply to a call of a snapshot that is built from the document for this call. -/
def Document.freshReply (d : Document) (call : Call) :
    Except CascadeError (Reply Configuration) := do
  let l ← LiveSnapshot.ofDocument d
  return (l.perform call).1.map Answer.configuration

/-- The documents that a client's steps have brought up. -/
structure Ledger where
  /-- The last document that was loaded. -/
  current : Document
  /-- The documents of the kept snapshots, oldest first. -/
  kept : List Document := []
  /-- The number of reloads that succeeded. -/
  reloads : Nat := 0

namespace Ledger

/-- Enter a document if it loads. -/
def enter (g : Ledger) (d : Document) : Ledger :=
  match Snapshot.ofDocument d with
  | .ok _ => { g with current := d, reloads := g.reloads + 1 }
  | .error _ => g

/-- The ledger after a step. -/
def next (g : Ledger) : Action → Ledger
  | .call _ => g
  | .keep => { g with kept := g.kept ++ [g.current] }
  | .callKept _ _ => g
  | .reload d => g.enter d
  | .tryReload d => g.enter d

/-- The response to a step, as far as documents decide it. -/
def foresee (g : Ledger) : Action → Except CascadeError (Response Configuration)
  | .call call => do return .replied (← g.current.freshReply call)
  | .keep => .ok .kept
  | .callKept index call =>
    match g.kept[index]? with
    | none => .ok .unknown
    | some d => do return .replied (← d.freshReply call)
  | .reload d =>
    match Snapshot.ofDocument d with
    | .ok _ => .ok (.reloaded (.ok ()))
    | .error e => .ok (.reloaded (.error e))
  | .tryReload d =>
    match Snapshot.ofDocument d with
    | .ok _ => .ok (.tried true)
    | .error _ => .ok (.tried false)

/-- The responses to steps, each foreseen from the ledger of its time. -/
def foreseeAll (g : Ledger) : List Action → List (Except CascadeError (Response Configuration))
  | [] => []
  | action :: rest => g.foresee action :: (g.next action).foreseeAll rest

/-- The ledger after steps. -/
def nextAll (g : Ledger) (actions : List Action) : Ledger :=
  actions.foldl next g

end Ledger

/-! ## Section 3: Live snapshots of a document -/

/-- The live snapshot was built from the document, whatever it has served since. -/
def Document.Backs (d : Document) (l : LiveSnapshot) : Prop :=
  ∃ s, Snapshot.ofDocument d = .ok s ∧ LiveSnapshot.Coherent s l

theorem LiveSnapshot.ofDocument_eq {d : Document} {s : Snapshot}
    (h : Snapshot.ofDocument d = .ok s) : LiveSnapshot.ofDocument d = .ok (fresh s) := by
  rw [LiveSnapshot.ofDocument, h]
  rfl

theorem Document.backs_fresh {d : Document} {s : Snapshot} (h : Snapshot.ofDocument d = .ok s) :
    d.Backs (.fresh s) :=
  ⟨s, h, LiveSnapshot.coherent_fresh s⟩

/-- However its cache stands, a live snapshot of a document replies as a fresh one. -/
theorem Document.Backs.perform {d : Document} {l : LiveSnapshot} (h : d.Backs l) (call : Call) :
    d.freshReply call = .ok ((l.perform call).1.map Answer.configuration) ∧
      d.Backs (l.perform call).2 := by
  obtain ⟨s, hs, hcoherent⟩ := h
  obtain ⟨hreply, hnext⟩ := hcoherent.perform call
  have hfresh := ((LiveSnapshot.coherent_fresh s).perform call).1
  refine ⟨?_, s, hs, hnext⟩
  rw [Document.freshReply, LiveSnapshot.ofDocument_eq hs, hreply, ← hfresh]
  rfl

/-! ## Section 4: Calls and reloads of a resolver -/

namespace Resolver

theorem setLive_live (r : Resolver) (h : Handle) : r.setLive h (r.live h) = r := by
  unfold setLive live
  split
  · rename_i hlt
    simp [List.getD, List.getElem?_eq_getElem hlt]
  · rename_i hge
    simp [List.getD, List.getElem?_eq_none (Nat.le_of_not_lt hge)]

/-- A call is served by the live snapshot of the handle. -/
theorem perform_eq (r : Resolver) (h : Handle) (call : Call) :
    r.perform h call =
      (((r.live h).perform call).1, r.setLive h ((r.live h).perform call).2) := by
  cases call with
  | resolve path => rfl
  | resolveAll paths => rfl
  | ask query =>
    show (_, r) = (_, r.setLive h (r.live h))
    rw [setLive_live]
    rfl

/-- Two handles show the same live snapshot, or changing the one does not show in the other. -/
theorem live_setLive (r : Resolver) (h other : Handle) (l : LiveSnapshot) :
    (r.live other = r.live h ∧ (r.setLive h l).live other = l) ∨
      (r.setLive h l).live other = r.live other := by
  by_cases hlt : h < r.retired.length
  · by_cases heq : other = h
    · subst heq
      exact Or.inl ⟨rfl, live_setLive_self r other l⟩
    · right
      simp [setLive, live, hlt, List.getD, Ne.symm heq]
  · by_cases hother : other < r.retired.length
    · right
      simp [setLive, live, hlt, List.getD, List.getElem?_eq_getElem hother]
    · -- both handles are those of the published snapshot
      left
      have hnone := List.getElem?_eq_none (Nat.le_of_not_lt hother)
      simp [setLive, live, hlt, List.getD, hnone]

@[simp] theorem handle_perform (r : Resolver) (h : Handle) (call : Call) :
    (r.perform h call).2.handle = r.handle := by
  rw [perform_eq, handle_setLive]

@[simp] theorem generation_perform (r : Resolver) (h : Handle) (call : Call) :
    (r.perform h call).2.generation = r.generation := by
  rw [perform_eq, generation_setLive]

/-- A call on one handle leaves the documents behind all handles as they are. -/
theorem backs_perform {r : Resolver} {d : Document} {other : Handle}
    (hother : d.Backs (r.live other)) (h : Handle) (call : Call) :
    d.Backs ((r.perform h call).2.live other) := by
  rw [perform_eq]
  rcases live_setLive r h other ((r.live h).perform call).2 with ⟨hsame, hset⟩ | hkept
  · rw [hset, ← hsame]
    exact (hother.perform call).2
  · rw [hkept]
    exact hother

theorem handle_le_publish (r : Resolver) (l : LiveSnapshot) : r.handle ≤ (r.publish l).handle := by
  rw [handle, handle, publish, List.length_append]
  exact Nat.le_add_right _ _

theorem reload_of_ok {d : Document} {s : Snapshot} (h : Snapshot.ofDocument d = .ok s)
    (r : Resolver) : r.reload d = .ok (r.publish (.fresh s)) := by
  rw [reload, LiveSnapshot.ofDocument_eq h]
  rfl

theorem reload_of_error {d : Document} {e : CascadeError} (h : Snapshot.ofDocument d = .error e)
    (r : Resolver) : r.reload d = .error e := by
  rw [reload, LiveSnapshot.ofDocument, h]
  rfl

end Resolver

theorem Client.perform_reload_of_ok {d : Document} {s : Snapshot}
    (h : Snapshot.ofDocument d = .ok s) (c : Client) :
    c.perform (.reload d) =
      (.reloaded (.ok ()), { c with resolver := c.resolver.publish (.fresh s) }) := by
  rw [perform, Resolver.reload_of_ok h]

theorem Client.perform_tryReload_of_ok {d : Document} {s : Snapshot}
    (h : Snapshot.ofDocument d = .ok s) (c : Client) :
    c.perform (.tryReload d) =
      (.tried true, { c with resolver := c.resolver.publish (.fresh s) }) := by
  rw [perform, Resolver.tryReload, Resolver.reload_of_ok h]

/-- Whatever it is that fails, the client and its resolver stay as they are. -/
theorem Client.perform_reload_of_error {d : Document} {e : CascadeError}
    (h : Snapshot.ofDocument d = .error e) (c : Client) :
    c.perform (.reload d) = (.reloaded (.error e), c) := by
  rw [perform, Resolver.reload_of_error h]

theorem Client.perform_tryReload_of_error {d : Document} {e : CascadeError}
    (h : Snapshot.ofDocument d = .error e) (c : Client) :
    c.perform (.tryReload d) = (.tried false, c) := by
  rw [perform, Resolver.tryReload, Resolver.reload_of_error h]

/-! ## Section 5: The invariant -/

/-- A kept handle was taken in time, and the document backs its live snapshot. -/
structure Keeps (r : Resolver) (h : Resolver.Handle) (d : Document) : Prop where
  handle_le : h ≤ r.handle
  backs : d.Backs (r.live h)

/-- The ledger knows the documents behind all that the client can call. -/
structure Follows (g : Ledger) (c : Client) : Prop where
  current : g.current.Backs c.resolver.current
  kept : List.Forall₂ (Keeps c.resolver) c.kept g.kept
  generation_eq : c.resolver.generation = UInt64.ofNat g.reloads

theorem follows_start {d : Document} {r : Resolver} (h : Resolver.ofDocument d = .ok r) :
    Follows { current := d } { resolver := r } := by
  obtain ⟨l, hl, hr⟩ := exists_ok_of_bind_eq_ok h
  obtain ⟨s, hs, hfresh⟩ := exists_ok_of_bind_eq_ok hl
  cases hr
  cases hfresh
  exact ⟨Document.backs_fresh hs, .nil, rfl⟩

variable {g : Ledger} {c : Client}

/-- What the ledger tells about a kept snapshot, by its number. -/
theorem Follows.getElem?_kept (h : Follows g c) (index : Nat) :
    (c.kept[index]? = none ∧ g.kept[index]? = none) ∨
      ∃ handle d, c.kept[index]? = some handle ∧ g.kept[index]? = some d ∧
        Keeps c.resolver handle d := by
  have hlength := h.kept.length_eq
  by_cases hlt : index < c.kept.length
  · right
    have hlt' : index < g.kept.length := by omega
    refine ⟨c.kept[index], g.kept[index], List.getElem?_eq_getElem hlt,
      List.getElem?_eq_getElem hlt', ?_⟩
    exact h.kept.get hlt hlt'
  · left
    exact ⟨List.getElem?_eq_none (by omega), List.getElem?_eq_none (by omega)⟩

theorem Follows.handle_le (h : Follows g c) : ∀ handle ∈ c.kept, handle ≤ c.resolver.handle := by
  have hboth : List.Forall₂ (fun handle d => handle ≤ c.resolver.handle ∧ Keeps c.resolver handle d)
      c.kept g.kept := h.kept.imp fun _ _ hkept => ⟨hkept.handle_le, hkept⟩
  exact ((List.forall₂_and_left _ _).1 hboth).1

theorem Follows.performOn (h : Follows g c) (handle : Resolver.Handle) (call : Call) :
    Follows g { c with resolver := (c.resolver.perform handle call).2 } := by
  refine ⟨?_, ?_, ?_⟩
  · have hcurrent := h.current
    rw [← Resolver.live_handle] at hcurrent
    rw [← Resolver.live_handle, Resolver.handle_perform]
    exact Resolver.backs_perform hcurrent handle call
  · refine h.kept.imp fun other d hkept => ⟨?_, Resolver.backs_perform hkept.backs handle call⟩
    rw [Resolver.handle_perform]
    exact hkept.handle_le
  · rw [Resolver.generation_perform]
    exact h.generation_eq

/-- Kept handles do not show a snapshot that is published later. -/
theorem Follows.publish (h : Follows g c) {d : Document} {s : Snapshot}
    (hs : Snapshot.ofDocument d = .ok s) :
    Follows { g with current := d, reloads := g.reloads + 1 }
      { c with resolver := c.resolver.publish (.fresh s) } := by
  refine ⟨Document.backs_fresh hs, ?_, ?_⟩
  · refine h.kept.imp fun handle old hkept => ⟨?_, ?_⟩
    · exact Nat.le_trans hkept.handle_le (Resolver.handle_le_publish _ _)
    · rw [Resolver.live_publish _ _ hkept.handle_le]
      exact hkept.backs
  · rw [Resolver.generation_publish, h.generation_eq, UInt64.ofNat_add]
    rfl

theorem Follows.keep (h : Follows g c) :
    Follows { g with kept := g.kept ++ [g.current] }
      { c with kept := c.kept ++ [c.resolver.handle] } := by
  refine ⟨h.current, ?_, h.generation_eq⟩
  have hlast : Keeps c.resolver c.resolver.handle g.current := by
    refine ⟨Nat.le_refl _, ?_⟩
    rw [Resolver.live_handle]
    exact h.current
  exact List.rel_append h.kept (.cons hlast .nil)

/-- A reply through a handle is foreseen from the document behind it. -/
theorem replied_eq {r : Resolver} {handle : Resolver.Handle} {d : Document}
    (h : d.Backs (r.live handle)) (call : Call) :
    (do return Response.replied (← d.freshReply call)) =
      (Except.ok (Response.replied (r.perform handle call).1 |>.map Answer.configuration) :
        Except CascadeError _) := by
  rw [(h.perform call).1, Resolver.perform_eq]
  rfl

theorem Follows.perform (h : Follows g c) (action : Action) :
    g.foresee action = .ok ((c.perform action).1.map Answer.configuration) ∧
      Follows (g.next action) (c.perform action).2 := by
  cases action with
  | call call =>
    have hcurrent := h.current
    rw [← Resolver.live_handle] at hcurrent
    exact ⟨replied_eq hcurrent call, h.performOn _ call⟩
  | keep => exact ⟨rfl, h.keep⟩
  | callKept index call =>
    rcases h.getElem?_kept index with ⟨hnone, hnone'⟩ | ⟨handle, d, hhandle, hd, hkeeps⟩
    · refine ⟨?_, ?_⟩
      · rw [Ledger.foresee, Client.perform, hnone, hnone']
        rfl
      · rw [Client.perform, hnone]
        exact h
    · refine ⟨?_, ?_⟩
      · rw [Ledger.foresee, Client.perform, hhandle, hd]
        exact replied_eq hkeeps.backs call
      · rw [Client.perform, hhandle]
        exact h.performOn handle call
  | reload d =>
    cases hs : Snapshot.ofDocument d with
    | ok s =>
      rw [Client.perform_reload_of_ok hs, Ledger.foresee, Ledger.next, Ledger.enter, hs]
      exact ⟨rfl, h.publish hs⟩
    | error e =>
      -- neither the client nor the ledger moves
      rw [Client.perform_reload_of_error hs, Ledger.foresee, Ledger.next, Ledger.enter, hs]
      exact ⟨rfl, h⟩
  | tryReload d =>
    cases hs : Snapshot.ofDocument d with
    | ok s =>
      rw [Client.perform_tryReload_of_ok hs, Ledger.foresee, Ledger.next, Ledger.enter, hs]
      exact ⟨rfl, h.publish hs⟩
    | error e =>
      rw [Client.perform_tryReload_of_error hs, Ledger.foresee, Ledger.next, Ledger.enter, hs]
      exact ⟨rfl, h⟩

theorem Follows.performAll (h : Follows g c) (actions : List Action) :
    g.foreseeAll actions =
        (c.performAll actions).1.map (fun response => .ok (response.map Answer.configuration)) ∧
      Follows (g.nextAll actions) (c.performAll actions).2 := by
  induction actions generalizing g c with
  | nil => exact ⟨rfl, h⟩
  | cons action rest ih =>
    obtain ⟨hresponse, hnext⟩ := h.perform action
    obtain ⟨hresponses, hlast⟩ := ih hnext
    refine ⟨?_, hlast⟩
    rw [Ledger.foreseeAll, Client.performAll, List.map_cons, hresponse, hresponses]

/-! ## Section 6: Histories -/

/-- Whatever a client of a resolver has done: every response is the one that the documents of its
    time decide, and the generation is the number of reloads that succeeded. From there, a
    reload that fails leaves all as it is, and one that succeeds puts a snapshot with an empty
    cache in place and leaves the kept ones alone. -/
theorem performAll_ofDocument {d : Document} {r : Resolver} (h : Resolver.ofDocument d = .ok r)
    (actions : List Action) :
    ∃ responses c, Client.performAll { resolver := r } actions = (responses, c) ∧
      responses.map (fun response => .ok (response.map Answer.configuration)) =
        Ledger.foreseeAll { current := d } actions ∧
      c.resolver.generation = UInt64.ofNat (Ledger.nextAll { current := d } actions).reloads ∧
      (∀ next e, Snapshot.ofDocument next = .error e →
        c.perform (.reload next) = (.reloaded (.error e), c) ∧
        c.perform (.tryReload next) = (.tried false, c)) ∧
      ∀ next s, Snapshot.ofDocument next = .ok s → ∃ published,
        c.perform (.reload next) = (.reloaded (.ok ()), { c with resolver := published }) ∧
        c.perform (.tryReload next) = (.tried true, { c with resolver := published }) ∧
        published.current.snapshot = s ∧ published.current.cached = .empty ∧
        published.generation = c.resolver.generation + 1 ∧
        ∀ handle ∈ c.kept, published.live handle = c.resolver.live handle := by
  obtain ⟨hresponses, hlast⟩ := (follows_start h).performAll actions
  refine ⟨_, _, rfl, hresponses.symm, hlast.generation_eq, ?_, ?_⟩
  · intro next e he
    exact ⟨Client.perform_reload_of_error he _, Client.perform_tryReload_of_error he _⟩
  · intro next s hs
    refine ⟨_, Client.perform_reload_of_ok hs _, Client.perform_tryReload_of_ok hs _, rfl, rfl, rfl,
      ?_⟩
    intro handle hhandle
    exact Resolver.live_publish _ _ (hlast.handle_le handle hhandle)

/-- A document with an ignore pattern that does not compile. -/
def unbalanced : Document where
  ignores := ["["]

theorem ofDocument_unbalanced : Snapshot.ofDocument unbalanced =
    .error (.malformedPattern "[" "ignores" "unbalanced bracket at offset 0") := by
  have hignores : loadIgnores unbalanced.ignores =
      .error (.malformedPattern "[" "ignores" "unbalanced bracket at offset 0") := by
    decide +kernel
  rw [Snapshot.ofDocument, hignores]
  rfl

/-- The snapshot of the layered document is kept, replaced by that of the empty document and
    asked; then a reload fails. -/
theorem performAll_ofDocument_layered :
    Resolver.ofDocument layered = .ok { current := .fresh layeredSnapshot } ∧
    ∃ responses c,
      Client.performAll { resolver := { current := .fresh layeredSnapshot } }
          [.keep, .reload {}, .callKept 0 (.resolve "./gen"), .tryReload unbalanced] =
        (responses, c) ∧
      responses.map (fun response => .ok (response.map Answer.configuration)) =
        ([.ok .kept, .ok (.reloaded (.ok ())), .ok (.replied (.one .ofIgnored)),
          .ok (.tried false)] : List (Except CascadeError (Response Configuration))) ∧
      c.resolver.generation = 1 := by
  have hlayered := LiveSnapshot.ofDocument_eq ofDocument_layered
  have hresolver : Resolver.ofDocument layered = .ok { current := .fresh layeredSnapshot } := by
    rw [Resolver.ofDocument, hlayered]
    rfl
  have hempty : ∃ s, Snapshot.ofDocument {} = .ok s := ⟨_, rfl⟩
  obtain ⟨s, hs⟩ := hempty
  obtain ⟨responses, c, hperform, hresponses, hgeneration, _⟩ :=
    performAll_ofDocument hresolver
      [.keep, .reload {}, .callKept 0 (.resolve "./gen"), .tryReload unbalanced]
  have hreply : layered.freshReply (.resolve "./gen") = .ok (.one .ofIgnored) := by
    rw [Document.freshReply, hlayered]
    rfl
  refine ⟨hresolver, responses, c, hperform, hresponses.trans ?_, hgeneration.trans ?_⟩
  · simp only [Ledger.foreseeAll, Ledger.foresee, Ledger.next, Ledger.enter, hs,
      ofDocument_unbalanced, List.nil_append, List.getElem?_cons_zero, hreply]
    rfl
  · simp only [Ledger.nextAll, List.foldl_cons, List.foldl_nil, Ledger.next, Ledger.enter, hs,
      ofDocument_unbalanced]
    rfl

end RuleCascade
