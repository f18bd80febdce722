import Qslary.Http.Message

/-!
# Servlets

`ServletDispatch` looks for a servlet under the path of a request, then goes through the entries
with a pattern, and takes the default servlet if there is none.
-/

namespace Qslary.Http

open Qslary.Foundation

/-- What a servlet makes of the response to a request. -/
abbrev Servlet := HttpRequest → HttpResponse → HttpResponse

/-- `NotFoundServlet(name)` -/
def notFoundServlet (name : Bytes) : Servlet := fun _ response =>
  let content := ascii ("<html><head><title>404 Not Found</title></head><body><center>" ++
    "<h1>404 Not Found</h1></center><hr><center>") ++ name ++ ascii "</center></body></html>"
  let found := ({ response with status := 404 }.setHeaderEntry (ascii "Server")
    (ascii "sylar/1.0.0")).setHeaderEntry (ascii "Content-Type") (ascii "text/html")
  { found with body := content }

/-- The servlets by url and by pattern; `S` is what stands for a pointer to one. -/
structure ServletDispatch (S : Type) where
  mpData : Bytes → Option S
  vData : List (Bytes × S)
  defaultServlet : S

namespace ServletDispatch

/-- `ServletDispatch::ServletDispatch` -/
def new : ServletDispatch (Option Servlet) :=
  ⟨fun _ => none, [], some (notFoundServlet (ascii "NotFound"))⟩

variable {S : Type}

/-- In every turn of the loop over `v_data_` it is the iterator into the other map whose key is
given to `fnmatch`, and that iterator is at its end: `none`. -/
def getMatchServlet (d : ServletDispatch S) (url : Bytes) : Option S :=
  match d.mpData url with
  | some slt => some slt
  | none =>
      match d.vData with
      | [] => some d.defaultServlet
      | _ :: _ => none

def handle (d : ServletDispatch (Option Servlet)) (request : HttpRequest)
    (response : HttpResponse) : Option HttpResponse :=
  match d.getMatchServlet request.path with
  | none => none
  | some none => some response
  | some (some slt) => some (slt request response)

/-- The url is registered, or there is no pattern. -/
def Finds (d : ServletDispatch S) (url : Bytes) : Prop :=
  (d.mpData url).isSome ∨ d.vData = []

theorem getMatchServlet_isSome_iff {d : ServletDispatch S} {url : Bytes} :
    (d.getMatchServlet url).isSome ↔ d.Finds url := by
  unfold getMatchServlet Finds
  cases d.mpData url with
  | some slt => simp
  | none => cases d.vData <;> simp

theorem handle_isSome_iff {d : ServletDispatch (Option Servlet)} {request : HttpRequest}
    {response : HttpResponse} :
    (d.handle request response).isSome ↔ d.Finds request.path := by
  rw [← getMatchServlet_isSome_iff, handle]
  cases d.getMatchServlet request.path with
  | none => rfl
  | some slt => cases slt <;> rfl

end ServletDispatch

end Qslary.Http
