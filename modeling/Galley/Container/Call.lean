import Galley.Container.Image
import Galley.Locker
/-!
# Calls to the container engine

What is asked of a container engine, and what it can answer. Containers are known by the ids that
the engine gives them.
-/
namespace Galley

structure ContainerSpec where
  name : String
  image : String
  env : List String
  labels : Labels
  mounts : List Mount
  entrypoint : List String
  command : List String
  stopTimeout : Option Duration
  deriving DecidableEq, Repr

inductive ContainerError
  | unavailable (text : String)
  | imageNotFound (image : String)
  | pullFailed (image message : String)
  | noSuchContainer (id : String)
  | api (text : String)
  deriving DecidableEq, Repr

def ContainerError.message : ContainerError → String
  | .unavailable text => "container runtime unavailable: " ++ text
  | .imageNotFound image => "image not found: " ++ image
  | .pullFailed image message => s!"pull {image} failed: {message}"
  | .noSuchContainer id => "no such container: " ++ id
  | .api text => "runtime api: " ++ text

inductive ContainerCall
  | ping
  | imageExists (image : String)
  | pull (image : String) (auth : Option Image.Auth)
  | imageId (image : String)
  | removeLabeled (labels : Labels)
  /-- Creates a container and starts it. -/
  | create (spec : ContainerSpec)
  | logs (id : String)
  | wait (id : String)
  | stop (id : String)
  | remove (id : String)
  deriving DecidableEq, Repr

/-- The lines that a container prints, and whether their stream ever ends. -/
structure LogStream where
  lines : List String
  closes : Bool
  deriving DecidableEq, Repr

/-- A running wait for the end of a container, which comes by itself at an instant in
milliseconds. -/
structure Watch where
  id : String
  endsAt : Nat
  deriving DecidableEq, Repr

/-- What a call is answered with. A ping may stay without an answer, and a wait is answered when it
begins. -/
abbrev ContainerCall.Answer : ContainerCall → Type
  | .ping => Option (Except ContainerError Unit)
  | .imageExists _ => Except ContainerError Bool
  | .pull _ _ => Except ContainerError Unit
  | .imageId _ => Except ContainerError String
  | .removeLabeled _ => Except ContainerError Nat
  | .create _ => Except ContainerError String
  | .logs _ => Except ContainerError LogStream
  | .wait _ => Watch
  | .stop _ => Except ContainerError Unit
  | .remove _ => Except ContainerError Unit

end Galley
