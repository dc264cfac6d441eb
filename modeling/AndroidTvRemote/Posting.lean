import AndroidTvRemote.Runs

namespace AndroidTvRemote.Posting

open Runs

/-- A machine that serves what is posted to it, first come first served. -/
structure Server (σ π : Type) where
  state : σ
  queue : List π := []

inductive Act (ε π : Type)
  | post (request : π)
  | handle (event : ε)

variable {σ ε π : Type}

def Act.handled : Act ε π → Option ε
  | .post _ => none
  | .handle e => some e

section Step

variable [DecidableEq π]

/-- A step of the machine either serves the request its event comes from, which
then is the first of the queue, or its event comes from none. -/
def step (inner : σ → ε → Option σ) (origin : ε → Option π) (x : Server σ π) :
    Act ε π → Option (Server σ π)
  | .post p => some { x with queue := x.queue ++ [p] }
  | .handle e =>
    match origin e with
    | none => (inner x.state e).map fun s ↦ { x with state := s }
    | some p =>
      if x.queue.head? = some p then
        (inner x.state e).map fun s ↦ { state := s, queue := x.queue.tail }
      else none

variable {inner : σ → ε → Option σ} {origin : ε → Option π} {x y : Server σ π}

end Step

end AndroidTvRemote.Posting
