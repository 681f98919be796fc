import BitzServer.Server.Objects
import BitzServer.Theorems.RequestBudget

/-!
# The objects of a worker

`Worker::run` on objects does what it does without them, uses no object that is not there, deletes none twice and none of others. What it
does not delete is known for each pass.
-/

namespace BitzServer

open Heap

namespace Objects

/-- The classes of some objects. -/
def classes (own : Heap.Objects Object) : Multiset ObjectClass := own.map fun x => x.2.objectClass

/-- What is left when a response is deleted that deletes its header or does not. -/
def leftByDelete (cleanupHeader : Bool) : Multiset ObjectClass := if cleanupHeader then 0 else {.responseHeader}

/-- What is left of the responses to some calls of which the last response is deleted: the others are not. -/
def leftInRow (cleanupHeader : Call → Bool) : List Call → Multiset ObjectClass
  | [] => 0
  | [call] => leftByDelete (cleanupHeader call)
  | _ :: call :: calls => .response ::ₘ .responseHeader ::ₘ leftInRow cleanupHeader (call :: calls)

/-- What is left of the responses to a preview and to a request. -/
def leftByCalls (cleanupHeader : Call → Bool) (calls : List Call) : Multiset ObjectClass :=
  leftInRow cleanupHeader (calls.filter fun call => call.operation = .preview) +
    leftInRow cleanupHeader (calls.filter fun call => call.operation = .modify)

/-- What is left by the answer to a request: a response that no modifier has made does not delete its header. -/
def leftByAnswer (worker : Worker) (cleanupHeader : Call → Bool) (method : Bytes) (calls : List Call) : Multiset ObjectClass :=
  match worker.findReqHandler method with
  | some (.modifiers _) => leftByCalls cleanupHeader calls
  | _ => {.responseHeader}

/-- What is left by a pass: the connection if its timeout cannot be set, the request header after a timeout, and what the answer leaves. -/
def Served.left (worker : Worker) (cleanupHeader : Call → Bool) (served : Served) : Multiset ObjectClass :=
  match served.event.pass with
  | none => if served.accepted then {.clientSock} else 0
  | some pass =>
    if pass.response.isSome then leftByAnswer worker cleanupHeader pass.reqHeader.request.method served.calls else {.requestHeader}

namespace ObjectsAux

variable {α γ : Type} {own : Heap.Objects Object} {s s' : Conn} {post : γ → Heap.Objects Object → Conn → Prop} {p q : Nat}

@[simp] theorem classes_zero : classes 0 = 0 := rfl

@[simp] theorem classes_cons (x : Σ _ : Nat, Object) (own : Heap.Objects Object) :
    classes (x ::ₘ own) = x.2.objectClass ::ₘ classes own :=
  Multiset.map_cons _ _ _

@[simp] theorem classes_add (own own' : Heap.Objects Object) : classes (own + own') = classes own + classes own' := Multiset.map_add _ _ _

/-- A request and its header are among the objects. -/
def withRequest (p q : Nat) (request : Request) (own : Heap.Objects Object) : Heap.Objects Object :=
  ⟨p, .request q request.payload⟩ ::ₘ ⟨q, .requestHeader request.header⟩ ::ₘ own

/-- A response and its header are among the objects. -/
def withResponse (p q : Nat) (cleanupHeader : Bool) (response : Response) (own : Heap.Objects Object) : Heap.Objects Object :=
  ⟨p, .response q cleanupHeader response.payload⟩ ::ₘ ⟨q, .responseHeader response.header⟩ ::ₘ own

theorem withResponse_cons (p q : Nat) (cleanup : Bool) (response : Response) (x : Σ _ : Nat, Object) (own : Heap.Objects Object) :
    withResponse p q cleanup response (x ::ₘ own) = x ::ₘ withResponse p q cleanup response own := by
  rw [withResponse, withResponse, Multiset.cons_swap _ x, Multiset.cons_swap _ x]

theorem withRequest_response (p q p' q' : Nat) (cleanup : Bool) (response : Response) (request : Request) (own : Heap.Objects Object) :
    withResponse p q cleanup response (withRequest p' q' request own) = withRequest p' q' request (withResponse p q cleanup response own) := by
  rw [withRequest, withRequest, withResponse_cons, withResponse_cons]

/-- A request can be read. -/
def HasRequest (p q : Nat) (request : Request) (own : Heap.Objects Object) : Prop :=
  ⟨p, .request q request.payload⟩ ∈ own ∧ ⟨q, .requestHeader request.header⟩ ∈ own

theorem hasRequest_withRequest (p q : Nat) (request : Request) (own : Heap.Objects Object) :
    HasRequest p q request (withRequest p q request own) :=
  ⟨Multiset.mem_cons_self _ _, Multiset.mem_cons_of_mem (Multiset.mem_cons_self _ _)⟩

theorem HasRequest.cons {request : Request} (h : HasRequest p q request own) (x : Σ _ : Nat, Object) : HasRequest p q request (x ::ₘ own) :=
  ⟨Multiset.mem_cons_of_mem h.1, Multiset.mem_cons_of_mem h.2⟩

/-! ## Through pointers -/

theorem onSock_triple {r : SockM α} {a : α} {k : α → ObjectM γ} (hrun : r.run s = .ok (a, s')) (hk : Triple own s' (k a) post) :
    Triple own s (onSock r >>= k) post :=
  Triple.onRest hrun hk

theorem loadRequestHeader_triple {header : RequestHeader} {k : RequestHeader → ObjectM γ} (hmem : ⟨p, .requestHeader header⟩ ∈ own)
    (hk : Triple own s (k header) post) : Triple own s (loadRequestHeader p >>= k) post := by
  rw [loadRequestHeader, bind_assoc]
  exact Triple.load hmem hk

theorem loadResponseHeader_triple {header : ResponseHeader} {k : ResponseHeader → ObjectM γ} (hmem : ⟨p, .responseHeader header⟩ ∈ own)
    (hk : Triple own s (k header) post) : Triple own s (loadResponseHeader p >>= k) post := by
  rw [loadResponseHeader, bind_assoc]
  exact Triple.load hmem hk

theorem loadRequest_triple {request : Request} {k : Request → ObjectM γ} (hmem : HasRequest p q request own)
    (hk : Triple own s (k request) post) : Triple own s (loadRequest p >>= k) post := by
  rw [loadRequest, bind_assoc]
  refine Triple.load hmem.1 ?_
  dsimp only
  rw [bind_assoc]
  exact loadRequestHeader_triple hmem.2 hk

theorem loadResponse_triple {cleanup : Bool} {response : Response} {k : Response → ObjectM γ}
    (hk : Triple (withResponse p q cleanup response own) s (k response) post) :
    Triple (withResponse p q cleanup response own) s (loadResponse p >>= k) post := by
  rw [loadResponse, bind_assoc]
  refine Triple.load (Multiset.mem_cons_self _ _) ?_
  dsimp only
  rw [bind_assoc]
  exact loadResponseHeader_triple (Multiset.mem_cons_of_mem (Multiset.mem_cons_self _ _)) hk

theorem storeRequest_triple {request request' : Request} {k : Unit → ObjectM γ}
    (hk : Triple (withRequest p q request' own) s (k ()) post) :
    Triple (withRequest p q request own) s (storeRequest p request' >>= k) post := by
  rw [storeRequest, bind_assoc]
  refine Triple.load (Multiset.mem_cons_self _ _) ?_
  dsimp only
  rw [bind_assoc]
  refine Triple.store ?_
  rw [Multiset.cons_swap]
  refine Triple.store ?_
  rw [Multiset.cons_swap]
  exact hk

theorem newResponse_triple {cleanup : Bool} {response : Response} {k : Nat → ObjectM γ}
    (hk : ∀ p q, Triple (withResponse p q cleanup response own) s (k p) post) :
    Triple own s (newResponse cleanup response >>= k) post := by
  rw [newResponse, bind_assoc]
  exact Triple.alloc fun q => Triple.alloc fun p => hk p q

/-- A response that is deleted leaves its header if it does not delete it. -/
theorem deleteResponse_triple {cleanup : Bool} {response : Response} {k : Unit → ObjectM γ}
    (hk : ∀ left, classes left = leftByDelete cleanup → Triple (left + own) s (k ()) post) :
    Triple (withResponse p q cleanup response own) s (deleteResponse p >>= k) post := by
  rw [deleteResponse, bind_assoc]
  refine Triple.load (Multiset.mem_cons_self _ _) ?_
  dsimp only
  cases cleanup with
  | true =>
    rw [if_pos rfl, bind_assoc, withResponse, Multiset.cons_swap]
    refine Triple.free (Triple.free ?_)
    have hk := hk 0 rfl
    rwa [zero_add] at hk
  | false =>
    rw [if_neg Bool.false_ne_true]
    refine Triple.free ?_
    have hk := hk {⟨q, .responseHeader response.header⟩} rfl
    rwa [Multiset.singleton_add] at hk

/-! ## What is left -/

/-- Beside the objects `own` there are a response, if `cell` points to one, and other objects: `owed` is what is left when it is deleted. -/
inductive Leaves (own : Heap.Objects Object) (owed : Multiset ObjectClass) : Option Nat → Option Response → Heap.Objects Object → Prop
  | deleted (left : Heap.Objects Object) (h : classes left = owed) : Leaves own owed none none (left + own)
  | made {p q : Nat} {cleanup : Bool} {response : Response} (left : Heap.Objects Object)
      (h : leftByDelete cleanup + classes left = owed) : Leaves own owed (some p) (some response) (withResponse p q cleanup response (left + own))

/-- Nothing is left yet beside a response that is there. -/
theorem Leaves.just (p q : Nat) (cleanup : Bool) (response : Response) (own : Heap.Objects Object) :
    Leaves own (leftByDelete cleanup) (some p) (some response) (withResponse p q cleanup response own) := by
  have hleaves : Leaves own (leftByDelete cleanup) (some p) (some response) (withResponse p q cleanup response (0 + own)) :=
    .made 0 (add_zero _)
  rwa [zero_add] at hleaves

section Leaves

variable {owed : Multiset ObjectClass} {cell : Option Nat} {value : Option Response} {own' : Heap.Objects Object}

/-- More objects that are left. -/
theorem Leaves.add {left : Heap.Objects Object} (h : Leaves (left + own) owed cell value own') :
    Leaves own (classes left + owed) cell value own' := by
  cases h with
  | deleted left' h =>
    rw [← add_assoc]
    refine .deleted (left' + left) ?_
    rw [classes_add, h, add_comm]
  | made left' h =>
    rw [← add_assoc]
    refine .made (left' + left) ?_
    rw [classes_add, ← add_assoc, h, add_comm]

/-- An object beside those that are left can be taken out. -/
theorem Leaves.uncons {x : Σ _ : Nat, Object} (h : Leaves (x ::ₘ own) owed cell value own') :
    ∃ own₁, own' = x ::ₘ own₁ ∧ Leaves own owed cell value own₁ := by
  cases h with
  | deleted left h => exact ⟨_, Multiset.add_cons _ _ _, .deleted left h⟩
  | @made p q cleanup response left h =>
    refine ⟨withResponse p q cleanup response (left + own), ?_, .made left h⟩
    rw [Multiset.add_cons, withResponse_cons]

end Leaves

/-! ## Modifiers -/

section Modifiers

variable (cleanupHeader : Call → Bool) {request q p' : Nat} {r : Request}

/-- A modifier that is asked makes a response, and is destroyed. -/
theorem ask_triple {handler : Handler} {operation : Operation} {k : Nat × Call → ObjectM γ} (hr : HasRequest request q r own)
    (hk : ∀ p q, Triple (withResponse p q (cleanupHeader ⟨handler.name, operation, r⟩) (handler.modifier.respond operation r) own) s
      (k (p, ⟨handler.name, operation, r⟩)) post) :
    Triple own s (ask cleanupHeader handler operation request >>= k) post := by
  rw [ask, bind_assoc]
  refine Triple.alloc fun m => ?_
  rw [bind_assoc]
  refine loadRequest_triple (hr.cons _) ?_
  rw [bind_assoc]
  refine newResponse_triple fun p p' => ?_
  rw [withResponse_cons, bind_assoc]
  exact Triple.free (hk p p')

/-- A response that is not the last one is not deleted. -/
theorem leftInRow_cons {call : Call} {calls : List Call} (hne : calls ≠ []) :
    leftInRow cleanupHeader (call :: calls) = .response ::ₘ .responseHeader ::ₘ leftInRow cleanupHeader calls := by
  obtain ⟨call', calls, rfl⟩ := List.exists_cons_of_ne_nil hne
  rfl

/-- What the loops over the handlers leave: without a call what was there, else what is left of the responses but the one that is returned. -/
def Asked (operation : Operation) (before after : Heap.Objects Object) (response : Option Nat) (prior : Option Response)
    (out : Option Nat × List Call) (value : Option Response) (own' : Heap.Objects Object) : Prop :=
  (∀ c ∈ out.2, c.operation = operation) ∧ (out.2 = [] ∧ out.1 = response ∧ value = prior ∧ own' = before ∧ before = after ∨
    out.2 ≠ [] ∧ Leaves after (leftInRow cleanupHeader out.2) out.1 value own')

/-- Without a call there is nothing left. -/
theorem Asked.nil {operation : Operation} {response : Option Nat} {prior : Option Response} :
    Asked cleanupHeader operation own own response prior (response, []) prior own :=
  ⟨nofun, .inl ⟨rfl, rfl, rfl, rfl, rfl⟩⟩

/-- The last call leaves what is left of its response. -/
theorem Asked.last {operation : Operation} {before after own' : Heap.Objects Object} {response cell : Option Nat}
    {prior value : Option Response} {call : Call} (hcall : call.operation = operation)
    (h : Leaves after (leftByDelete (cleanupHeader call)) cell value own') :
    Asked cleanupHeader operation before after response prior (cell, [call]) value own' := by
  refine ⟨?_, .inr ⟨List.cons_ne_nil _ _, h⟩⟩
  rintro c (_ | ⟨_, ⟨⟩⟩)
  exact hcall

/-- The response of a call is left once another call is made behind it. -/
theorem Asked.cons {operation : Operation} {before after own' : Heap.Objects Object} {response : Option Nat} {prior value : Option Response}
    {call : Call} {made : Response} {out : Option Nat × List Call} (hcall : call.operation = operation)
    (h : Asked cleanupHeader operation (withResponse p q (cleanupHeader call) made before)
      (withResponse p q (cleanupHeader call) made after) (some p) (some made) out value own') :
    Asked cleanupHeader operation before after response prior (out.1, call :: out.2) value own' := by
  obtain ⟨cell, calls⟩ := out
  obtain ⟨hcalls, hend⟩ := h
  rcases hend with ⟨rfl, rfl, rfl, rfl, hsame⟩ | ⟨hne, hend⟩
  · refine .last cleanupHeader hcall ?_
    rw [hsame]
    exact Leaves.just _ _ _ _ _
  · refine ⟨?_, .inr ⟨List.cons_ne_nil _ _, ?_⟩⟩
    · rintro c (_ | ⟨_, hc⟩)
      · exact hcall
      · exact hcalls c hc
    · have hadd : withResponse p q (cleanupHeader call) made after = withResponse p q (cleanupHeader call) made 0 + after := by
        simp only [withResponse, Multiset.cons_add, zero_add]
      rw [hadd] at hend
      rw [leftInRow_cons _ hne]
      have hleft := hend.add
      simp only [withResponse, classes_cons, classes_zero, Multiset.cons_add, zero_add] at hleft
      exact hleft

theorem processModify_triple : ∀ (handlers : List Handler) (response : Option Nat) (prior : Option Response)
    (own : Heap.Objects Object), HasRequest request q r own →
    Triple own s (processModify cleanupHeader request handlers response) fun out own' s' => s' = s ∧
      out.2 = (BitzServer.processModify r handlers prior).2 ∧
      Asked cleanupHeader .modify own own response prior out (BitzServer.processModify r handlers prior).1 own'
  | [], _, _, _, _ => Triple.pure ⟨rfl, rfl, .nil _⟩
  | handler :: handlers, response, prior, own, hr => by
    rw [processModify, BitzServer.processModify]
    by_cases hname : handler.name = []
    · rw [if_pos hname, if_pos hname]
      exact processModify_triple handlers response prior own hr
    · rw [if_neg hname, if_neg hname]
      refine ask_triple cleanupHeader hr fun p p' => ?_
      dsimp only
      refine loadResponse_triple ?_
      dsimp only [Modifier.respond]
      by_cases hok : (handler.modifier.modify r).header.status = .ok
      · rw [if_pos hok, if_pos hok]
        exact Triple.pure ⟨rfl, rfl, .last _ rfl (Leaves.just _ _ _ _ _)⟩
      · rw [if_neg hok, if_neg hok]
        refine Triple.bind (processModify_triple handlers (some p) (some (handler.modifier.modify r)) _ ((hr.cons _).cons _)) ?_
        rintro ⟨response', calls⟩ own' s' ⟨rfl, rfl, hasked⟩
        exact Triple.pure ⟨rfl, rfl, hasked.cons _ rfl⟩

/-- What is read is in the request. -/
theorem readInto_triple {reader : Request → SockM (Request × Bool)} {r' : Request} {status : Bool} {k : Bool → ObjectM γ}
    (hrun : (reader r).run s = .ok ((r', status), s')) (hk : Triple (withRequest request q r' own) s' (k status) post) :
    Triple (withRequest request q r own) s (readInto reader request >>= k) post := by
  rw [readInto, bind_assoc]
  refine loadRequest_triple (hasRequest_withRequest _ _ _ _) ?_
  rw [bind_assoc]
  refine onSock_triple hrun ?_
  dsimp only
  rw [bind_assoc]
  exact storeRequest_triple hk

theorem previewContinue_triple {cleanup : Bool} {response : Response} {r' : Request} {status : Bool} {k : Bool → ObjectM γ}
    (hrun : (BitzServer.previewContinue response r).run s = .ok ((r', status), s'))
    (hk : Triple (withResponse p p' cleanup response (withRequest request q r' own)) s' (k status) post) :
    Triple (withResponse p p' cleanup response (withRequest request q r own)) s (previewContinue p request >>= k) post := by
  rw [previewContinue, bind_assoc]
  refine loadRequest_triple (((hasRequest_withRequest _ _ _ _).cons _).cons _) ?_
  rw [BitzServer.previewContinue] at hrun
  by_cases hieof : r.payload.ieof = true
  · rw [if_pos hieof] at hrun ⊢
    obtain ⟨⟨⟩, rfl⟩ := Feed.eq_of_run_pure hrun
    exact hk
  · rw [if_neg hieof] at hrun ⊢
    obtain ⟨sent, s₁, hsent, hrest⟩ := Feed.exists_of_run_bind hrun
    rw [bind_assoc]
    refine loadResponse_triple ?_
    rw [bind_assoc]
    refine onSock_triple hsent ?_
    by_cases hs : sent = true
    · rw [if_pos hs] at hrest ⊢
      rw [withRequest_response] at hk ⊢
      exact readInto_triple hrest hk
    · rw [if_neg hs] at hrest ⊢
      obtain ⟨⟨⟩, rfl⟩ := Feed.eq_of_run_pure hrest
      exact hk

theorem newStatusResponse_triple {status : Status} {response : Response} {k : Nat → ObjectM γ}
    (hrun : (Response.ofStatus status).run s = .ok (response, s')) (hk : ∀ p p', Triple (withResponse p p' true response own) s' (k p) post) :
    Triple own s (newStatusResponse status >>= k) post := by
  rw [newStatusResponse, bind_assoc]
  exact onSock_triple hrun (newResponse_triple hk)

theorem processPreview_triple : ∀ (handlers : List Handler) (response : Option Nat) (prior : Option Response)
    (own : Heap.Objects Object) {r' : Request} {value : Option Response} {calls : List Call} {s' : Conn},
    (BitzServer.processPreview r handlers prior).run s = .ok ((r', value, calls), s') →
    Triple (withRequest request q r own) s (processPreview cleanupHeader request handlers response) fun out own' t => t = s' ∧
      out.2 = calls ∧
      Asked cleanupHeader .preview (withRequest request q r own) (withRequest request q r' own) response prior out value own'
  | [], _, _, _, _, _, _, _, hrun => by
    obtain ⟨⟨⟩, rfl⟩ := Feed.eq_of_run_pure hrun
    exact Triple.pure ⟨rfl, rfl, .nil _⟩
  | handler :: handlers, response, prior, own, r', value, calls, s', hrun => by
    rw [processPreview]
    rw [BitzServer.processPreview] at hrun
    by_cases hname : handler.name = []
    · rw [if_pos hname] at hrun ⊢
      exact processPreview_triple handlers response prior own hrun
    · rw [if_neg hname] at hrun ⊢
      refine ask_triple cleanupHeader (hasRequest_withRequest _ _ _ _) fun p p' => ?_
      dsimp only at hrun ⊢
      refine loadResponse_triple ?_
      dsimp only [Modifier.respond]
      generalize handler.modifier.preview r = made at hrun ⊢
      by_cases hfinal : made.header.status = .noContent ∨ made.header.status = .ok
      · rw [if_pos hfinal] at hrun ⊢
        obtain ⟨⟨⟩, rfl⟩ := Feed.eq_of_run_pure hrun
        exact Triple.pure ⟨rfl, rfl, .last _ rfl (Leaves.just _ _ _ _ _)⟩
      · rw [if_neg hfinal] at hrun ⊢
        by_cases hcontinue : made.header.status = .continue
        · rw [if_pos hcontinue] at hrun ⊢
          obtain ⟨⟨request', continueStatus⟩, s₁, hcont, hrest⟩ := Feed.exists_of_run_bind hrun
          refine previewContinue_triple hcont (deleteResponse_triple fun left hleft => ?_)
          dsimp only at hrest
          by_cases hstatus : continueStatus = true
          · rw [if_pos hstatus] at hrest ⊢
            obtain ⟨⟨⟩, rfl⟩ := Feed.eq_of_run_pure hrest
            exact Triple.pure ⟨rfl, rfl, .last _ rfl (.deleted left hleft)⟩
          · rw [if_neg hstatus] at hrest ⊢
            obtain ⟨answer, s₂, hanswer, hrest⟩ := Feed.exists_of_run_bind hrest
            obtain ⟨⟨⟩, rfl⟩ := Feed.eq_of_run_pure hrest
            refine newStatusResponse_triple hanswer fun p p' => Triple.pure ⟨rfl, rfl, .last _ rfl (.made left ?_)⟩
            exact (zero_add _).trans hleft
        · rw [if_neg hcontinue] at hrun ⊢
          obtain ⟨⟨request', answer, later⟩, s₁, hlater, hrest⟩ := Feed.exists_of_run_bind hrun
          obtain ⟨⟨⟩, rfl⟩ := Feed.eq_of_run_pure hrest
          rw [withRequest_response]
          refine Triple.bind (processPreview_triple handlers (some p) (some made) _ hlater) ?_
          rintro ⟨response', calls⟩ own' s' ⟨rfl, rfl, hasked⟩
          rw [← withRequest_response, ← withRequest_response] at hasked
          exact Triple.pure ⟨rfl, rfl, hasked.cons _ rfl⟩

theorem leftByCalls_append {previews modifies : List Call} (hpreviews : ∀ c ∈ previews, c.operation = .preview)
    (hmodifies : ∀ c ∈ modifies, c.operation = .modify) :
    leftByCalls cleanupHeader (previews ++ modifies) = leftInRow cleanupHeader previews + leftInRow cleanupHeader modifies := by
  have hpreview : (previews ++ modifies).filter (fun call => call.operation = .preview) = previews := by
    rw [List.filter_append, List.filter_eq_self.mpr (by simpa using hpreviews), List.filter_eq_nil_iff.mpr, List.append_nil]
    intro c hc
    simp [hmodifies c hc]
  have hmodify : (previews ++ modifies).filter (fun call => call.operation = .modify) = modifies := by
    rw [List.filter_append, List.filter_eq_self (l := modifies).mpr (by simpa using hmodifies), List.filter_eq_nil_iff.mpr, List.nil_append]
    intro c hc
    simp [hpreviews c hc]
  rw [leftByCalls, hpreview, hmodify]

/-- From nothing the loops leave what is left of the responses. -/
theorem Asked.leaves {operation : Operation} {before after own' : Heap.Objects Object} {out : Option Nat × List Call}
    {value : Option Response} (h : Asked cleanupHeader operation before after none none out value own') :
    Leaves after (leftInRow cleanupHeader out.2) out.1 value own' := by
  obtain ⟨cell, calls⟩ := out
  rcases h.2 with ⟨rfl, rfl, rfl, rfl, rfl⟩ | ⟨-, h⟩
  · have hleaves : Leaves own' 0 none none (0 + own') := .deleted 0 rfl
    rwa [zero_add] at hleaves
  · exact h

/-- What the modifiers have answered, or that the 500 is still to be made. -/
def Answered (out : Option Nat × List Call) (o : Outcome) (own own' : Heap.Objects Object) (request q : Nat) (t s' : Conn) : Prop :=
  out.2 = o.calls ∧ ∃ r' value, o.reqHeader = r'.header ∧
    Leaves (withRequest request q r' own) (leftByCalls cleanupHeader out.2) out.1 value own' ∧
    (value = some o.response ∧ t = s' ∨ value = none ∧ (Response.ofStatus .serverError).run t = .ok (o.response, s'))

theorem processRead_triple {handlers : List Handler} {o : Outcome} (hrun : (BitzServer.processRead handlers r).run s = .ok (o, s')) :
    Triple (withRequest request q r own) s (processRead cleanupHeader handlers request) fun out own' t =>
      Answered cleanupHeader out o own own' request q t s' := by
  rw [BitzServer.processRead] at hrun
  obtain ⟨⟨r', value, previews⟩, s₁, hpreview, hrest⟩ := Feed.exists_of_run_bind hrun
  rw [processRead]
  refine loadRequest_triple (hasRequest_withRequest _ _ _ _) ?_
  have hloop : Triple (withRequest request q r own) s
      (if r.previewSize ≥ 0 then processPreview cleanupHeader request handlers none else pure (none, []) : ObjectM _)
      fun out own' t => t = s₁ ∧ out.2 = previews ∧
        Asked cleanupHeader .preview (withRequest request q r own) (withRequest request q r' own) none none out value own' := by
    by_cases hsize : r.previewSize ≥ 0
    · rw [if_pos hsize] at hpreview ⊢
      exact processPreview_triple cleanupHeader handlers none none own hpreview
    · rw [if_neg hsize] at hpreview ⊢
      obtain ⟨⟨⟩, rfl⟩ := Feed.eq_of_run_pure hpreview
      exact Triple.pure ⟨rfl, rfl, .nil _⟩
  refine Triple.bind hloop ?_
  rintro ⟨response, _⟩ own₁ t ⟨rfl, rfl, hasked⟩
  have hcalls := hasked.1
  have hleaves := hasked.leaves
  dsimp only at hrest ⊢
  cases value with
  | some answer =>
    obtain ⟨rfl, rfl⟩ := Feed.eq_of_run_pure hrest
    cases response with
    | none => cases hleaves
    | some p =>
      refine Triple.pure ⟨(List.append_nil _).symm, r', some answer, rfl, ?_, .inl ⟨rfl, rfl⟩⟩
      have howed := leftByCalls_append cleanupHeader hcalls fun c (hc : c ∈ []) => absurd hc List.not_mem_nil
      rw [List.append_nil, leftInRow, add_zero] at howed
      rwa [howed]
  | none =>
    cases hleaves with
    | deleted left hleft =>
      have hr : HasRequest request q r' (left + withRequest request q r' own) :=
        ⟨Multiset.mem_add.mpr (.inr (hasRequest_withRequest _ _ _ _).1), Multiset.mem_add.mpr (.inr (hasRequest_withRequest _ _ _ _).2)⟩
      refine Triple.bind (processModify_triple cleanupHeader handlers none none _ hr) ?_
      rintro ⟨cell, modifies⟩ own₂ t' ⟨rfl, rfl, hasked'⟩
      have hend := hasked'.leaves.add
      rw [hleft, ← leftByCalls_append cleanupHeader hcalls hasked'.1] at hend
      obtain ⟨answer, s₂, hanswer, hrest⟩ := Feed.exists_of_run_bind hrest
      obtain ⟨rfl, rfl⟩ := Feed.eq_of_run_pure hrest
      refine Triple.pure ⟨rfl, r', _, rfl, hend, ?_⟩
      generalize (BitzServer.processModify r' handlers none).1 = value at hanswer ⊢
      cases value with
      | some answer' =>
        obtain ⟨rfl, rfl⟩ := Feed.eq_of_run_pure hanswer
        exact .inl ⟨rfl, rfl⟩
      | none => exact .inr ⟨rfl, hanswer⟩

theorem process_triple {handlers : List Handler} {header : RequestHeader} {o : Outcome}
    (hrun : (BitzServer.process handlers header).run s = .ok (o, s')) :
    Triple (⟨q, .requestHeader header⟩ ::ₘ own) s (process cleanupHeader handlers q) fun out own' t => t = s' ∧ out.2 = o.calls ∧
      Leaves (⟨q, .requestHeader o.reqHeader⟩ ::ₘ own) (leftByCalls cleanupHeader o.calls) (some out.1) (some o.response) own' := by
  rw [BitzServer.process] at hrun
  obtain ⟨⟨r, read⟩, s₁, hread, hrest⟩ := Feed.exists_of_run_bind hrun
  rw [process]
  refine Triple.alloc fun request => ?_
  have hanswered : Triple (withRequest request q (Request.new header) own) s (do
      if ← readReqData request then processRead cleanupHeader handlers request
      else return (some (← newStatusResponse .serverError), []) : ObjectM (Option Nat × List Call)) fun out own' t =>
        Answered cleanupHeader out o own own' request q t s' := by
    refine readInto_triple hread ?_
    cases read with
    | true => exact processRead_triple cleanupHeader hrest
    | false =>
      obtain ⟨answer, s₂, hanswer, hrest⟩ := Feed.exists_of_run_bind hrest
      obtain ⟨rfl, rfl⟩ := Feed.eq_of_run_pure hrest
      have hnil : leftByDelete true = leftByCalls cleanupHeader [] := (add_zero 0).symm
      exact newStatusResponse_triple hanswer fun p p' =>
        Triple.pure ⟨rfl, r, some answer, rfl, hnil ▸ Leaves.just p p' true answer _, .inl ⟨rfl, rfl⟩⟩
  refine Triple.bind hanswered ?_
  rintro ⟨cell, calls⟩ own₁ t ⟨rfl, r', value, hheader, hleaves, hvalue⟩
  obtain ⟨own₂, rfl, hrest⟩ := hleaves.uncons
  rw [← hheader] at hrest
  refine Triple.free ?_
  cases hrest with
  | deleted left hleft =>
    obtain ⟨hnone, -⟩ | ⟨-, hanswer⟩ := hvalue
    · cases hnone
    · exact newStatusResponse_triple hanswer fun p p' => Triple.pure ⟨rfl, rfl, .made left ((zero_add _).trans hleft)⟩
  | made left hleft =>
    obtain ⟨hsome, rfl⟩ | ⟨hnone, -⟩ := hvalue
    · obtain rfl := Option.some.inj hsome
      exact Triple.pure ⟨rfl, rfl, .made left hleft⟩
    · cases hnone

end Modifiers

/-! ## The worker -/

theorem attachTo_triple {header : ResponseHeader} {key value : Bytes} {h : Header} {k : Unit → ObjectM γ}
    (hrun : (liftM (header.toHeader.attach key value) : SockM Header).run s = .ok (h, s'))
    (hk : Triple (⟨q, .responseHeader { header with toHeader := h }⟩ ::ₘ own) s' (k ()) post) :
    Triple (⟨q, .responseHeader header⟩ ::ₘ own) s (attachTo q key value >>= k) post := by
  rw [attachTo, bind_assoc]
  refine loadResponseHeader_triple (Multiset.mem_cons_self _ _) ?_
  rw [bind_assoc]
  exact onSock_triple hrun (Triple.store hk)

theorem processOptions_triple {methods : List Bytes} {header : RequestHeader} {o : Outcome} {k : Nat → ObjectM γ}
    (hrun : (BitzServer.processOptions methods header).run s = .ok (o, s'))
    (hk : ∀ p p', o.reqHeader = header → Triple (withResponse p p' false o.response own) s' (k p) post) :
    Triple own s (processOptions methods >>= k) post := by
  rw [BitzServer.processOptions] at hrun
  obtain ⟨made, s₁, hmade, hrun⟩ := Feed.exists_of_run_bind hrun
  obtain ⟨method, s₂, hmethod, hrun⟩ := Feed.exists_of_run_bind hrun
  obtain ⟨h₁, s₃, hh₁, hrun⟩ := Feed.exists_of_run_bind hrun
  obtain ⟨h₂, s₄, hh₂, hrun⟩ := Feed.exists_of_run_bind hrun
  obtain ⟨h₃, s₅, hh₃, hrun⟩ := Feed.exists_of_run_bind hrun
  obtain ⟨response, s₆, hresponse, hrun⟩ := Feed.exists_of_run_bind hrun
  obtain ⟨rfl, rfl⟩ := Feed.eq_of_run_pure hrun
  obtain ⟨rfl, rfl⟩ := Feed.eq_of_run_pure hresponse
  rw [processOptions, bind_assoc]
  refine onSock_triple hmade ?_
  rw [bind_assoc]
  refine Triple.alloc fun p' => ?_
  rw [bind_assoc]
  refine onSock_triple hmethod ?_
  rw [bind_assoc]
  refine attachTo_triple hh₁ ?_
  rw [bind_assoc]
  refine attachTo_triple hh₂ ?_
  rw [bind_assoc]
  refine attachTo_triple hh₃ ?_
  exact Triple.alloc fun p => hk p p' rfl

/-! ### The request line -/

theorem readReqData_request {r r' : Request} {status : Bool} (hrun : (BitzServer.readReqData r).run s = .ok ((r', status), s')) :
    r'.header.request = r.header.request := by
  rw [BitzServer.readReqData] at hrun
  obtain ⟨payload, s₁, -, hrest⟩ := Feed.exists_of_run_bind hrun
  obtain ⟨⟨⟩, rfl⟩ := Feed.eq_of_run_pure hrest
  rfl

theorem previewContinue_request {response : Response} {r r' : Request} {status : Bool}
    (hrun : (BitzServer.previewContinue response r).run s = .ok ((r', status), s')) : r'.header.request = r.header.request := by
  rw [BitzServer.previewContinue] at hrun
  split at hrun
  · obtain ⟨⟨⟩, rfl⟩ := Feed.eq_of_run_pure hrun
    rfl
  · obtain ⟨sent, s₁, -, hrest⟩ := Feed.exists_of_run_bind hrun
    split at hrest
    · rw [BitzServer.readReqContinueData] at hrest
      split at hrest
      · obtain ⟨payload, s₂, -, hrest⟩ := Feed.exists_of_run_bind hrest
        obtain ⟨⟨⟩, rfl⟩ := Feed.eq_of_run_pure hrest
        rfl
      · obtain ⟨⟨⟩, rfl⟩ := Feed.eq_of_run_pure hrest
        rfl
    · obtain ⟨⟨⟩, rfl⟩ := Feed.eq_of_run_pure hrest
      rfl

theorem processPreview_request {r : Request} : ∀ (handlers : List Handler) (prior : Option Response) {r' : Request}
    {value : Option Response} {calls : List Call} {s' : Conn},
    (BitzServer.processPreview r handlers prior).run s = .ok ((r', value, calls), s') → r'.header.request = r.header.request
  | [], _, _, _, _, _, hrun => by
    obtain ⟨⟨⟩, rfl⟩ := Feed.eq_of_run_pure hrun
    rfl
  | handler :: handlers, prior, r', value, calls, s', hrun => by
    rw [BitzServer.processPreview] at hrun
    split at hrun
    · exact processPreview_request handlers prior hrun
    · dsimp only at hrun
      split at hrun
      · obtain ⟨⟨⟩, rfl⟩ := Feed.eq_of_run_pure hrun
        rfl
      · split at hrun
        · obtain ⟨⟨r₁, continueStatus⟩, s₁, hcont, hrest⟩ := Feed.exists_of_run_bind hrun
          dsimp only at hrest
          split at hrest
          · obtain ⟨⟨⟩, rfl⟩ := Feed.eq_of_run_pure hrest
            exact previewContinue_request hcont
          · obtain ⟨answer, s₂, -, hrest⟩ := Feed.exists_of_run_bind hrest
            obtain ⟨⟨⟩, rfl⟩ := Feed.eq_of_run_pure hrest
            exact previewContinue_request hcont
        · obtain ⟨⟨r₁, answer, later⟩, s₁, hlater, hrest⟩ := Feed.exists_of_run_bind hrun
          obtain ⟨⟨⟩, rfl⟩ := Feed.eq_of_run_pure hrest
          exact processPreview_request handlers _ hlater

/-- What is read of the data of a request leaves its request line. -/
theorem process_request {handlers : List Handler} {header : RequestHeader} {o : Outcome}
    (hrun : (BitzServer.process handlers header).run s = .ok (o, s')) : o.reqHeader.request = header.request := by
  rw [BitzServer.process] at hrun
  obtain ⟨⟨r, read⟩, s₁, hread, hrest⟩ := Feed.exists_of_run_bind hrun
  refine Eq.trans ?_ (readReqData_request hread)
  dsimp only at hrest
  split at hrest
  · rw [BitzServer.processRead] at hrest
    obtain ⟨⟨r', value, previews⟩, s₂, hpreview, hrest⟩ := Feed.exists_of_run_bind hrest
    obtain ⟨answer, s₃, -, hrest⟩ := Feed.exists_of_run_bind hrest
    obtain ⟨rfl, rfl⟩ := Feed.eq_of_run_pure hrest
    split at hpreview
    · exact processPreview_request handlers none hpreview
    · obtain ⟨⟨⟩, rfl⟩ := Feed.eq_of_run_pure hpreview
      rfl
  · obtain ⟨answer, s₂, -, hrest⟩ := Feed.exists_of_run_bind hrest
    obtain ⟨rfl, rfl⟩ := Feed.eq_of_run_pure hrest
    rfl

/-! ### The worker itself -/

section Worker

variable (worker : Worker) (cleanupHeader : Call → Bool)

theorem respond_triple {header header' : RequestHeader} {response : Response}
    (hrun : (worker.respond header).run s = .ok ((header', response), s')) :
    Triple (⟨q, .requestHeader header⟩ ::ₘ own) s (respond worker cleanupHeader q) fun out own' t => t = s' ∧
      header'.request = header.request ∧ Leaves (⟨q, .requestHeader header'⟩ ::ₘ own)
        (leftByAnswer worker cleanupHeader header.request.method out.2) (some out.1) (some response) own' := by
  rw [respond]
  refine loadRequestHeader_triple (Multiset.mem_cons_self _ _) ?_
  rw [Worker.respond] at hrun
  simp only [leftByAnswer]
  generalize worker.findReqHandler header.request.method = found at hrun ⊢
  cases found with
  | none =>
    obtain ⟨made, s₁, hmade, hrest⟩ := Feed.exists_of_run_bind hrun
    obtain ⟨response', s₂, hresponse, hrest⟩ := Feed.exists_of_run_bind hrest
    obtain ⟨rfl, rfl⟩ := Feed.eq_of_run_pure hresponse
    obtain ⟨⟨⟩, rfl⟩ := Feed.eq_of_run_pure hrest
    refine onSock_triple hmade (Triple.alloc fun p' => Triple.alloc fun p => Triple.pure ⟨rfl, rfl, ?_⟩)
    exact Leaves.just p p' false _ _
  | some handler =>
    obtain ⟨o, s₁, ho, hrest⟩ := Feed.exists_of_run_bind hrun
    obtain ⟨⟨⟩, rfl⟩ := Feed.eq_of_run_pure hrest
    cases handler with
    | modifiers handlers =>
      refine (process_triple cleanupHeader ho).mono ?_
      rintro out own' t ⟨rfl, hcalls, hleaves⟩
      rw [← hcalls] at hleaves
      exact ⟨rfl, process_request ho, hleaves⟩
    | options methods =>
      refine processOptions_triple ho fun p p' hheader => Triple.pure ⟨rfl, by rw [hheader], ?_⟩
      rw [hheader]
      exact Leaves.just p p' false _ _

/-- The response is sent and deleted. -/
theorem answer_triple {header : RequestHeader} {response response' : Response} {owed : Multiset ObjectClass} {own' : Heap.Objects Object}
    {p : Nat} {k : Response → ObjectM γ} (hrun : (Worker.answer header response).run s = .ok (response', s'))
    (hleaves : Leaves (⟨q, .requestHeader header⟩ ::ₘ own) owed (some p) (some response) own')
    (hk : ∀ left, classes left = owed → Triple (left + ⟨q, .requestHeader header⟩ ::ₘ own) s' (k response') post) :
    Triple own' s (answer q p >>= k) post := by
  cases hleaves with
  | @made p p' cleanup response left hleft =>
    rw [Worker.answer] at hrun
    obtain ⟨h, s₁, hattach, hrest⟩ := Feed.exists_of_run_bind hrun
    obtain ⟨sent, s₂, hsend, hrest⟩ := Feed.exists_of_run_bind hrest
    obtain ⟨rfl, rfl⟩ := Feed.eq_of_run_pure hrest
    have hmem : (⟨q, .requestHeader header⟩ : Σ _ : Nat, Object) ∈
        withResponse p p' cleanup response (left + ⟨q, .requestHeader header⟩ ::ₘ own) := by
      rw [Multiset.add_cons, withResponse_cons]
      exact Multiset.mem_cons_self _ _
    -- the response with its header as it is sent
    have hsent : Triple (withResponse p p' cleanup { response with header := { response.header with toHeader := h } }
        (left + ⟨q, .requestHeader header⟩ ::ₘ own)) s₁ (do
          let sent ← loadResponse p
          let _ ← onSock (sendResponse sent)
          deleteResponse p
          k sent) post := by
      refine loadResponse_triple (onSock_triple hsend (deleteResponse_triple fun left' hleft' => ?_))
      rw [← add_assoc]
      exact hk (left' + left) (by rw [classes_add, hleft', hleft])
    rw [answer, bind_assoc]
    refine loadRequestHeader_triple hmem ?_
    by_cases hkeeps : header.keepsAlive = true
    · rw [if_pos hkeeps] at hattach ⊢
      rw [bind_assoc]
      refine Triple.load (Multiset.mem_cons_self _ _) ?_
      dsimp only
      rw [withResponse, Multiset.cons_swap, bind_assoc]
      refine attachTo_triple hattach ?_
      rw [Multiset.cons_swap]
      simp only [bind_assoc, pure_bind]
      exact hsent
    · rw [if_neg hkeeps] at hattach ⊢
      obtain ⟨rfl, rfl⟩ := Feed.eq_of_run_pure hattach
      simp only [bind_assoc, pure_bind]
      exact hsent

/-- A pass leaves its request header, to be deleted, and what the answer leaves. -/
theorem servePass_triple {pass : Pass} (hrun : worker.servePass.run s = .ok (pass, s')) :
    Triple own s (servePass worker cleanupHeader) fun out own' t => t = s' ∧ out.2.1 = pass ∧ ∃ left,
      own' = ⟨out.1, .requestHeader pass.reqHeader⟩ ::ₘ (left + own) ∧ classes left = if pass.response.isSome then
        leftByAnswer worker cleanupHeader pass.reqHeader.request.method out.2.2 else 0 := by
  rw [Worker.servePass] at hrun
  obtain ⟨start, s₁, hstart, hrun⟩ := Feed.exists_of_run_bind hrun
  obtain ⟨header, s₂, hread, hrun⟩ := Feed.exists_of_run_bind hrun
  obtain ⟨out, s₃, hout, hrun⟩ := Feed.exists_of_run_bind hrun
  rw [servePass]
  refine onSock_triple hstart (onSock_triple hread (Triple.alloc fun q => onSock_triple hout ?_))
  by_cases htimedout : out = true
  · rw [if_pos htimedout] at hrun ⊢
    obtain ⟨rfl, rfl⟩ := Feed.eq_of_run_pure hrun
    refine loadRequestHeader_triple (Multiset.mem_cons_self _ _) (Triple.pure ⟨rfl, rfl, 0, ?_, rfl⟩)
    rw [zero_add]
  · rw [if_neg htimedout] at hrun ⊢
    obtain ⟨⟨header', response⟩, s₄, hrespond, hrun⟩ := Feed.exists_of_run_bind hrun
    obtain ⟨sent, s₅, hanswer, hrun⟩ := Feed.exists_of_run_bind hrun
    obtain ⟨rfl, rfl⟩ := Feed.eq_of_run_pure hrun
    refine Triple.bind (respond_triple worker cleanupHeader hrespond) ?_
    rintro ⟨p, calls⟩ own' t ⟨rfl, hline, hleaves⟩
    refine answer_triple hanswer hleaves fun left hleft => ?_
    refine loadRequestHeader_triple (Multiset.mem_add.mpr (.inr (Multiset.mem_cons_self _ _))) (Triple.pure ⟨rfl, rfl, left, ?_, ?_⟩)
    · exact Multiset.add_cons _ _ _
    · dsimp only at hleft ⊢
      rw [hleft, hline]
      rfl

/-- What is left by some passes. -/
def leftBy (served : List Served) : Multiset ObjectClass := (served.map (Served.left worker cleanupHeader)).sum

/-- The request header of the pass before is deleted, the last one too unless there has been a timeout. -/
theorem serveClient_triple : ∀ (fuel : Nat) (maxRequests : UInt32) (own : Heap.Objects Object) (s : Conn) (previous : Option (Nat × RequestHeader))
    {left : UInt32} {events : List Worker.LoopEvent} {s' : Conn},
    (worker.serveClientPasses fuel maxRequests).run s = .ok ((left, events), s') →
    Triple (previous.elim 0 (fun x => {⟨x.1, .requestHeader x.2⟩}) + own) s
      (serveClient worker cleanupHeader fuel maxRequests (previous.map Prod.fst)) fun out own' t => t = s' ∧ out.1 = left ∧
        out.2.map Served.event = events ∧ ∃ rest, own' = rest + own ∧ classes rest = leftBy worker cleanupHeader out.2
  | 0, _, _, _, _, _, _, _, hrun => by cases hrun
  | fuel + 1, maxRequests, own, s, previous, left, events, s', hrun => by
    rw [Worker.serveClientPasses] at hrun
    obtain ⟨pass₀, s₁, hpass, hrest⟩ := Feed.exists_of_run_bind hrun
    have hfirst : Triple own s (serveClient worker cleanupHeader (fuel + 1) maxRequests none) fun out own' t => t = s' ∧ out.1 = left ∧
        out.2.map Served.event = events ∧ ∃ rest, own' = rest + own ∧ classes rest = leftBy worker cleanupHeader out.2 := by
      rw [serveClient]
      refine Triple.bind (servePass_triple worker cleanupHeader hpass) ?_
      rintro ⟨q, pass, calls⟩ _ t ⟨rfl, hsame, left', rfl, hleft'⟩
      obtain rfl : pass = pass₀ := hsame
      dsimp only at hleft' hrest ⊢
      cases hresponse : pass.response with
      | none =>
        simp only [hresponse] at hrest hleft' ⊢
        obtain ⟨⟨⟩, rfl⟩ := Feed.eq_of_run_pure hrest
        refine Triple.pure ⟨rfl, rfl, rfl, ⟨q, .requestHeader pass.reqHeader⟩ ::ₘ left', (Multiset.cons_add _ _ _).symm, ?_⟩
        simp [hleft', leftBy, Served.left, hresponse, Object.objectClass]
      | some response =>
        simp only [hresponse] at hrest hleft' ⊢
        refine loadRequestHeader_triple (Multiset.mem_cons_self _ _) ?_
        by_cases hgoes : maxRequests - 1 > 0 ∧ pass.reqHeader.keepsAlive = true
        · rw [if_pos hgoes] at hrest ⊢
          obtain ⟨⟨left₁, later⟩, s₂, hlater, hrest⟩ := Feed.exists_of_run_bind hrest
          obtain ⟨⟨⟩, rfl⟩ := Feed.eq_of_run_pure hrest
          have hih := serveClient_triple fuel (maxRequests - 1) (left' + own) t (some (q, pass.reqHeader)) hlater
          rw [Option.elim_some, Multiset.singleton_add] at hih
          refine Triple.bind hih ?_
          rintro ⟨_, served⟩ _ t' ⟨rfl, rfl, rfl, rest, rfl, hrest⟩
          refine Triple.pure ⟨rfl, rfl, rfl, rest + left', (add_assoc _ _ _).symm, ?_⟩
          simp [hleft', hrest, leftBy, Served.left, hresponse, add_comm]
        · rw [if_neg hgoes] at hrest ⊢
          obtain ⟨⟨⟩, rfl⟩ := Feed.eq_of_run_pure hrest
          refine Triple.free (Triple.pure ⟨rfl, rfl, rfl, left', rfl, ?_⟩)
          simp [hleft', leftBy, Served.left, hresponse]
    cases previous with
    | none =>
      rw [Option.elim_none, zero_add]
      exact hfirst
    | some x =>
      rw [Option.elim_some, Multiset.singleton_add, Option.map_some, serveClient]
      refine Triple.free ?_
      rw [serveClient] at hfirst
      exact hfirst

theorem exists_of_bind_pure {α β : Type} {x : Except Fault α} {f : α → β} {b : β} (h : (x >>= fun a => pure (f a)) = .ok b) :
    ∃ a, x = .ok a ∧ b = f a := by
  cases x with
  | error e => cases h
  | ok a => exact ⟨a, rfl, (Except.ok.inj h).symm⟩

/-- The connection is deleted once it has been served, and left if its timeout cannot be set. -/
theorem runLoop_triple (accept : Nat → Accepted) : ∀ (fuel calls : Nat) (maxRequests : UInt32) (own : Heap.Objects Object) (s : Conn)
    {events : List Worker.LoopEvent}, worker.runLoop (fun i => (accept i).sock?) fuel calls maxRequests = .ok events →
    Triple own s (runLoop worker cleanupHeader accept fuel calls maxRequests) fun out own' _ =>
      out.map Served.event = events ∧ ∃ rest, own' = rest + own ∧ classes rest = leftBy worker cleanupHeader out
  | 0, _, _, _, _, _, hrun => by cases hrun
  | fuel + 1, calls, maxRequests, own, s, events, hrun => by
    rw [Worker.runLoop] at hrun
    rw [runLoop]
    by_cases hpos : maxRequests > 0
    · rw [if_pos hpos] at hrun ⊢
      cases haccept : accept calls with
      | refused =>
        simp only [haccept, Accepted.sock?] at hrun
        obtain ⟨later, hlater, rfl⟩ := exists_of_bind_pure hrun
        refine Triple.bind (runLoop_triple accept fuel (calls + 1) (maxRequests - 1) own s hlater) ?_
        rintro served _ t ⟨rfl, rest, rfl, hrest⟩
        refine Triple.pure ⟨rfl, rest, rfl, ?_⟩
        simp [hrest, leftBy, Served.left]
      | untimed =>
        simp only [haccept, Accepted.sock?] at hrun
        obtain ⟨later, hlater, rfl⟩ := exists_of_bind_pure hrun
        refine Triple.alloc fun clientSock => ?_
        refine Triple.bind (runLoop_triple accept fuel (calls + 1) (maxRequests - 1) _ s hlater) ?_
        rintro served _ t ⟨rfl, rest, rfl, hrest⟩
        refine Triple.pure ⟨rfl, ⟨clientSock, .clientSock⟩ ::ₘ rest, ?_, ?_⟩
        · rw [Multiset.add_cons, Multiset.cons_add]
        · simp [hrest, leftBy, Served.left, Object.objectClass]
      | ready sock =>
        simp only [haccept, Accepted.sock?] at hrun
        cases hserve : (worker.serveClientPasses UInt32.size maxRequests).run sock with
        | error e =>
          rw [hserve] at hrun
          cases hrun
        | ok r =>
          obtain ⟨⟨left, served⟩, s₁⟩ := r
          rw [hserve] at hrun
          obtain ⟨later, hlater, rfl⟩ := exists_of_bind_pure hrun
          refine Triple.alloc fun clientSock => onSock_triple (a := ()) rfl ?_
          have hserved := serveClient_triple worker cleanupHeader UInt32.size maxRequests (⟨clientSock, .clientSock⟩ ::ₘ own) sock none hserve
          rw [Option.elim_none, zero_add] at hserved
          refine Triple.bind hserved ?_
          rintro ⟨_, passes⟩ _ t ⟨rfl, rfl, rfl, rest, rfl, hrest⟩
          rw [Multiset.add_cons]
          refine Triple.free (Triple.bind (runLoop_triple accept fuel (calls + 1) _ _ t hlater) ?_)
          rintro later' _ t' ⟨rfl, rest', rfl, hrest'⟩
          refine Triple.pure ⟨List.map_append, rest' + rest, (add_assoc _ _ _).symm, ?_⟩
          rw [classes_add, hrest, hrest', leftBy, leftBy, leftBy, List.map_append, List.sum_append, add_comm]
    · rw [if_neg hpos] at hrun ⊢
      obtain rfl := Except.ok.inj hrun
      exact Triple.pure ⟨rfl, 0, (zero_add _).symm, rfl⟩

end Worker

end ObjectsAux

open ObjectsAux

/-- Whatever its clients send, its modifiers answer and `accept` gives, and whatever else is on the heap: `Worker::run` on objects makes the
passes that it makes without them, uses no object that is not there and deletes none twice, leaves the objects of others as they are, and
leaves of its own what is left by each pass. -/
theorem run_objects (reqmod respmod : List Handler) (cleanupHeader : Call → Bool) (accept : Nat → Accepted) (maxRequests : UInt32)
    (heap : Heap Object) (s : Conn) : ∃ served heap' left s',
      (run (Worker.new reqmod respmod) cleanupHeader accept maxRequests).run (heap, s) = .ok (served, (heap', s')) ∧
      (Worker.new reqmod respmod).run (fun i => (accept i).sock?) maxRequests = .ok (served.map Served.event) ∧
      heap'.owned = left + heap.owned ∧
      classes left = (served.map (Served.left (Worker.new reqmod respmod) cleanupHeader)).sum := by
  obtain ⟨events, hrun, -⟩ := RequestBudgetAux.runLoop_counts reqmod respmod (fun i => (accept i).sock?) UInt32.size 0 maxRequests
    maxRequests.toNat_lt_size
  obtain ⟨served, heap', own', s', hobjects, hown, hevents, left, rfl, hleft⟩ :=
    runLoop_triple (Worker.new reqmod respmod) cleanupHeader accept UInt32.size 0 maxRequests 0 s hrun heap heap.owned (zero_add _).symm
  refine ⟨served, heap', left, s', hobjects, ?_, ?_, hleft⟩
  · rw [hevents]
    exact hrun
  · rw [hown, add_zero]

end Objects

end BitzServer
