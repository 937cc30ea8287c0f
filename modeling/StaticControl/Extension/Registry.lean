/-
  Registries: which payloads have a structure of their own.

  An interface builds payloads of one URI; a registry holds at most one
  interface for each URI.  A URI without an interface is never refused: its text
  is kept as it is.
-/
import StaticControl.Extension.Parser

set_option autoImplicit false

namespace StaticControl

/-- What builds the payloads of one URI. -/
inductive Interface where
  | body
  | comment
  | scatNames
  /-- keeps the text -/
  | unknown (uri : Text)
  deriving DecidableEq, Repr, Inhabited

namespace Interface

/-- The URI whose payloads the interface builds. -/
def uri : Interface → Text
  | body => Extension.bodyUri
  | comment => Extension.commentUri
  | scatNames => Extension.scatNamesUri
  | unknown u => u

/-- The payload of a text. -/
def parse : Interface → Text → Except Fault Extension
  | body, t => (Body.parse t).map Extension.body
  | comment, t => .ok (.comment t)
  | scatNames, t => .ok (.scatNames (Text.names t))
  | unknown u, t => .ok (.unknown u t)

/-- An empty payload. -/
def create : Interface → Extension
  | body => .body ⟨[], []⟩
  | comment => .comment []
  | scatNames => .scatNames []
  | unknown u => .unknown u []

end Interface

/-- Interfaces of distinct URIs. -/
structure Registry where
  interfaces : List Interface
  deriving DecidableEq, Repr, Inhabited

namespace Registry

/-- The registry without interfaces. -/
def empty : Registry := ⟨[]⟩

/-- The registry of the structured payloads. -/
def builtin : Registry := ⟨[.comment, .scatNames, .body]⟩

/-- The interface of a URI. -/
def find? (r : Registry) (uri : Text) : Option Interface :=
  r.interfaces.find? fun i => i.uri == uri

/-- Whether the URI has an interface. -/
def isRegistered (r : Registry) (uri : Text) : Bool := (r.find? uri).isSome

/-- The registry without the interface of a URI. -/
def unregister (r : Registry) (uri : Text) : Registry :=
  ⟨r.interfaces.filter fun i => i.uri != uri⟩

/-- The registry with an interface in place of any other of its URI. -/
def register (r : Registry) (i : Interface) : Registry :=
  ⟨(r.unregister i.uri).interfaces ++ [i]⟩

/-- The interface of a URI, or the one that keeps the text. -/
def lookup (r : Registry) (uri : Text) : Interface := (r.find? uri).getD (.unknown uri)

/-- The extension of a URI and the text between its marks. -/
def parse (r : Registry) (uri text : Text) : Except Fault Extension :=
  (r.lookup uri).parse text

/-- An empty extension of a URI. -/
def create (r : Registry) (uri : Text) : Extension := (r.lookup uri).create

/-- The registered URIs in ascending order. -/
def uris (r : Registry) : List Text :=
  (r.interfaces.map Interface.uri).mergeSort fun a b => !b.lex a fun c d => c.toNat.blt d.toNat

/-- The registered URIs as a debugging message shows them. -/
def describe (r : Registry) : Text :=
  "ExtensionRegistry \x7b uris: [".toList
    ++ Text.join [',', ' '] (r.uris.map Text.quote) ++ "] \x7d".toList

theorem find?_unregister_self (r : Registry) (uri : Text) : (r.unregister uri).find? uri = none := by
  simp [find?, unregister]

theorem isRegistered_unregister_self (r : Registry) (uri : Text) :
    (r.unregister uri).isRegistered uri = false := by
  simp [isRegistered, find?_unregister_self]

end Registry

end StaticControl
