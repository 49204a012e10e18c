import SSize.Handlers.Dispatch
import SSize.Worker.Ledger

/-!
# The whole server over its restarts

The pipeline of the queues with the HTTP thread in front of it. A handler runs on
the one HTTP thread: it takes the snapshot when it starts, and its queue
operations follow one at a time while the worker goes on. The refresh may swap
the snapshot at any time. A restart, orderly or not, keeps the database and
nothing else, and may come with another configuration.
-/

namespace SSize

open Lib

/-- A call of `handle_redirect` that generated a token, with its answer. -/
structure Redirect where
  token : Text
  status : Status

structure Server where
  cfg : Config
  pipeline : Pipeline
  catalog : CatalogPtr := {}
  cache : FeedCache := {}
  /-- What the handler that is running has still to push. -/
  todo : List Effect := []
  /-- The tokens generated so far. No step reads it. -/
  redirects : List Redirect := []

def Server.init (cfg : Config) (started : Int) : Server where
  cfg := cfg
  pipeline := .init cfg {} started

inductive ServerAct where
  | request (amb : Ambient) (req : HttpRequest) (peer : Text)
  | push
  | setCatalog (catalog : Catalog)
  | stopServer
  | stopWorker
  | worker (env : Env)
  | restart (cfg : Config) (started : Int)

def Effect.act : Effect → Act
  | .event ev => .push ev
  | .postback now q => .postback now q

def Server.pipelineStep (lib : Library) (s : Server) (a : Act) : Option Server :=
  (step lib.kopeksOf s.cfg s.pipeline a).map fun p => { s with pipeline := p }

def serverStep (lib : Library) (s : Server) : ServerAct → Option Server
  | .request amb req peer =>
      if s.pipeline.serving && s.todo.isEmpty then
        let reply := dispatch lib s.cfg amb s.catalog s.cache req (clientAddress req peer)
        let redirects := reply.minted.map fun token => Redirect.mk token reply.response.status
        some { s with
          cache := reply.cache
          todo := reply.effects
          redirects := s.redirects ++ redirects.toList }
      else none
  | .push =>
      match s.todo with
      | [] => none
      | effect :: rest => { s with todo := rest }.pipelineStep lib effect.act
  | .setCatalog catalog => some { s with catalog := ⟨s.catalog.serial + 1, catalog⟩ }
  -- `stop` joins the HTTP thread, so the handler that is running comes to its end.
  | .stopServer => if s.todo.isEmpty then s.pipelineStep lib .stopServer else none
  | .stopWorker => s.pipelineStep lib .stopWorker
  | .worker env => s.pipelineStep lib (.worker env)
  | .restart cfg started =>
      some
        { cfg := cfg
          pipeline := .init cfg s.pipeline.db started
          redirects := s.redirects }

/-- The token was generated by a call of `handle_redirect` that is answered 302. -/
def Server.Issued (s : Server) (token : Text) : Prop :=
  ∃ r ∈ s.redirects, r.token = token ∧ r.status = .found

variable {lib : Library} {s t : Server} {a : ServerAct}

/-- What one step of the server does to its three parts: it answers a request,
moves the pipeline, swaps the snapshot or starts over. -/
inductive ServerMoves (lib : Library) (s : Server) : ServerAct → Server → Prop
  | request {amb : Ambient} {req : HttpRequest} {peer : Text} {reply : Reply}
      (hreply : reply = dispatch lib s.cfg amb s.catalog s.cache req (clientAddress req peer)) :
      ServerMoves lib s (.request amb req peer) { s with
        cache := reply.cache
        todo := reply.effects
        redirects := s.redirects ++
          (reply.minted.map fun token => Redirect.mk token reply.response.status).toList }
  | push {effect : Effect} {rest : List Effect} {p : Pipeline} (htodo : s.todo = effect :: rest)
      (hstep : step lib.kopeksOf s.cfg s.pipeline effect.act = some p) :
      ServerMoves lib s .push { s with todo := rest, pipeline := p }
  | setCatalog {catalog : Catalog} :
      ServerMoves lib s (.setCatalog catalog)
        { s with catalog := ⟨s.catalog.serial + 1, catalog⟩ }
  | other {a : ServerAct} {b : Act} {p : Pipeline} (hquiet : ∀ ev, b ≠ .push ev)
      (hstep : step lib.kopeksOf s.cfg s.pipeline b = some p) :
      ServerMoves lib s a { s with pipeline := p }
  | restart {cfg : Config} {started : Int} :
      ServerMoves lib s (.restart cfg started)
        { cfg := cfg, pipeline := .init cfg s.pipeline.db started, redirects := s.redirects }

theorem pipelineStep_other {b : Act} (hquiet : ∀ ev, b ≠ .push ev)
    (h : s.pipelineStep lib b = some t) : ServerMoves lib s a t := by
  obtain ⟨p, hp, rfl⟩ := Option.map_eq_some_iff.1 h
  exact .other hquiet hp

theorem serverStep_moves (h : serverStep lib s a = some t) : ServerMoves lib s a t := by
  cases a with
  | request amb req peer =>
      rw [serverStep] at h
      split at h
      · cases h
        exact .request rfl
      · simp at h
  | push =>
      rw [serverStep] at h
      split at h
      · simp at h
      · next effect rest htodo =>
          obtain ⟨p, hp, rfl⟩ := Option.map_eq_some_iff.1 h
          exact .push htodo hp
  | setCatalog catalog =>
      cases h
      exact .setCatalog
  | stopServer =>
      rw [serverStep] at h
      split at h
      · exact pipelineStep_other (fun _ => by simp) h
      · simp at h
  | stopWorker => exact pipelineStep_other (fun _ => by simp) h
  | worker env => exact pipelineStep_other (fun _ => by simp) h
  | restart cfg started =>
      cases h
      exact .restart

theorem ServerMoves.issued (hm : ServerMoves lib s a t) {token : Text} (h : s.Issued token) :
    t.Issued token := by
  obtain ⟨r, hr, htoken, hstatus⟩ := h
  cases hm with
  | request hreply => exact ⟨r, List.mem_append_left _ hr, htoken, hstatus⟩
  | push htodo hstep => exact ⟨r, hr, htoken, hstatus⟩
  | setCatalog => exact ⟨r, hr, htoken, hstatus⟩
  | other hquiet hstep => exact ⟨r, hr, htoken, hstatus⟩
  | restart => exact ⟨r, hr, htoken, hstatus⟩

end SSize
