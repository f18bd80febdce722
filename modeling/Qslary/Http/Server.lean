import Qslary.Http.Servlet
import Qslary.Http.Session

/-!
# Serving a connection

`handleClient` answers one request after another.  When there is no further request, as
when a keep-alive client goes away, it runs into an assertion.
-/

namespace Qslary.Http

open Qslary.Foundation

/-- A turn of the loop: what `recvRequest` returns, and the dispatcher as it is then. -/
structure Turn where
  request : Option HttpRequest
  dispatch : ServletDispatch (Option Servlet)

inductive ServerEvent where
  | received (request : Option HttpRequest)
  | sent (response : HttpResponse)
  | closed
  | aborted

namespace HttpServer

/-- The response that a servlet gets. -/
def responseTo (keepAlive : Bool) (request : HttpRequest) : HttpResponse :=
  .ofStatus 200 request.version (request.close || !keepAlive)

/-- The loop; after the last turn it waits for the client. -/
def handleClient (keepAlive : Bool) : List Turn → List ServerEvent
  | [] => []
  | turn :: turns =>
      .received turn.request ::
        match turn.request with
        -- `assert(false)`
        | none => [.aborted]
        | some request =>
            match turn.dispatch.handle request (responseTo keepAlive request) with
            | none => [.aborted]
            | some response =>
                .sent response ::
                  if !keepAlive || response.close then [.closed]
                  else handleClient keepAlive turns

/-! ## What a client may rely on -/

/-- A response to each request, until one closes the session or there is no request. -/
inductive Serves (keepAlive : Bool) : List (Option HttpRequest) → List ServerEvent → Prop where
  | waits : Serves keepAlive [] []
  | ends (rest : List (Option HttpRequest)) :
      Serves keepAlive (none :: rest) [.received none, .closed]
  | last {request : HttpRequest} {response : HttpResponse} (rest : List (Option HttpRequest)) :
      (!keepAlive || response.close) = true →
        Serves keepAlive (some request :: rest)
          [.received (some request), .sent response, .closed]
  | next {request : HttpRequest} {response : HttpResponse} {rest : List (Option HttpRequest)}
      {events : List ServerEvent} :
      (!keepAlive || response.close) = false → Serves keepAlive rest events →
        Serves keepAlive (some request :: rest)
          (.received (some request) :: .sent response :: events)

variable {keepAlive : Bool}

/-- There is a request, and a servlet or a default for it. -/
def Answerable (turn : Turn) : Prop :=
  ∃ request, turn.request = some request ∧ turn.dispatch.Finds request.path

/-- The response leaves the session open. -/
def GoesOn (keepAlive : Bool) (turn : Turn) : Prop :=
  ∃ request response, turn.request = some request ∧
    turn.dispatch.handle request (responseTo keepAlive request) = some response ∧
    (!keepAlive || response.close) = false

/-- Every turn that the loop gets to can be answered. -/
def AllAnswerable (keepAlive : Bool) (turns : List Turn) : Prop :=
  ∀ before turn after, turns = before ++ turn :: after →
    (∀ earlier ∈ before, GoesOn keepAlive earlier) → Answerable turn

theorem allAnswerable_cons {turn : Turn} {turns : List Turn} :
    AllAnswerable keepAlive (turn :: turns) ↔
      Answerable turn ∧
        (GoesOn keepAlive turn → AllAnswerable keepAlive turns) := by
  constructor
  · intro h
    refine ⟨h [] turn turns rfl (by simp), fun hturn before other after heq hbefore => ?_⟩
    refine h (turn :: before) other after (by rw [heq]; rfl) ?_
    intro earlier hearlier
    rcases List.mem_cons.mp hearlier with rfl | hearlier
    · exact hturn
    · exact hbefore earlier hearlier
  · rintro ⟨hturn, hturns⟩ before other after heq hbefore
    cases before with
    | nil =>
        cases heq
        exact hturn
    | cons first before =>
        cases heq
        exact hturns (hbefore turn List.mem_cons_self) before other after rfl
          fun earlier hearlier => hbefore earlier (List.mem_cons_of_mem _ hearlier)

theorem serves_next {request : HttpRequest} {response : HttpResponse}
    {rest : List (Option HttpRequest)} {events : List ServerEvent}
    (hopen : (!keepAlive || response.close) = false) :
    Serves keepAlive (some request :: rest)
        (.received (some request) :: .sent response :: events) ↔ Serves keepAlive rest events := by
  refine ⟨fun h => ?_, .next hopen⟩
  cases h with
  | last _ hlast =>
      rw [hopen] at hlast
      cases hlast
  | next _ hrest => exact hrest

theorem answerable_iff {turn : Turn} {request : HttpRequest} (h : turn.request = some request)
    (response : HttpResponse) :
    Answerable turn ↔ (turn.dispatch.handle request response).isSome := by
  rw [Answerable, h, ServletDispatch.handle_isSome_iff]
  simp

theorem goesOn_iff {turn : Turn} {request : HttpRequest} {response : HttpResponse}
    (h : turn.request = some request)
    (hanswer : turn.dispatch.handle request (responseTo keepAlive request) =
      some response) :
    GoesOn keepAlive turn ↔ (!keepAlive || response.close) = false := by
  rw [GoesOn, h]
  constructor
  · rintro ⟨_, answer, ⟨⟩, hother, hopen⟩
    rw [hanswer, Option.some_inj] at hother
    rwa [hother]
  · exact fun hopen => ⟨request, response, rfl, hanswer, hopen⟩

/-- A client is served if and only if there is a request in every turn that the loop gets
to, whose path is registered unless there are no patterns. -/
theorem serves_iff (keepAlive : Bool) (turns : List Turn) :
    Serves keepAlive (turns.map Turn.request) (handleClient keepAlive turns) ↔
      AllAnswerable keepAlive turns := by
  induction turns with
  | nil =>
      refine iff_of_true .waits fun before turn after heq => ?_
      cases before <;> cases heq
  | cons turn turns ih =>
      rw [allAnswerable_cons, List.map_cons, handleClient]
      cases hrequest : turn.request with
      | none =>
          refine iff_of_false (fun h => by cases h) ?_
          rintro ⟨⟨request, hsome, -⟩, -⟩
          rw [hrequest] at hsome
          cases hsome
      | some request =>
          rw [answerable_iff hrequest (responseTo keepAlive request)]
          dsimp only
          cases hanswer : turn.dispatch.handle request (responseTo keepAlive request) with
          | none => exact iff_of_false (fun h => by cases h) fun h => Bool.noConfusion h.1
          | some response =>
              rw [goesOn_iff hrequest hanswer]
              dsimp only
              cases hlast : !keepAlive || response.close with
              | true => exact iff_of_true (.last _ hlast) ⟨rfl, fun hopen => by cases hopen⟩
              | false =>
                  rw [if_neg Bool.false_ne_true, serves_next hlast, ih]
                  simp

theorem Serves.not_aborted {requests : List (Option HttpRequest)} {events : List ServerEvent}
    (h : Serves keepAlive requests events) : ServerEvent.aborted ∉ events := by
  induction h with
  | waits => simp
  | ends rest => simp
  | last rest _ => simp
  | next _ _ ih => simpa using ih

/-- A request that is to leave the session open, and nothing behind it. -/
def visit : List Turn :=
  [⟨some { HttpRequest.new with version := 17, close := false }, .new⟩, ⟨none, .new⟩]

/-- A keep-alive client that goes away after its request aborts the server. -/
theorem visit_aborts :
    ¬Serves true (visit.map Turn.request) (handleClient true visit) := by
  intro h
  obtain ⟨response, hevents⟩ : ∃ response,
      handleClient true visit =
        [.received (some { HttpRequest.new with version := 17, close := false }),
          .sent response, .received none, .aborted] := ⟨_, rfl⟩
  rw [hevents] at h
  exact h.not_aborted (by simp)

end HttpServer

end Qslary.Http
