import NoiseLink.Event
import NoiseLink.Echo.Arguments
import NoiseLink.SocketAddress

/-! What the echo program reports. Ports and durations differ from run to run and are left out. -/
namespace NoiseLink.Echo

inductive Entry where
  | loadedKey (key : PublicKey)
  | listening (address : String) (key : PublicKey)
  /-- A report of the library. -/
  | event (event : Event)
  | accepted (peer : PublicKey) (address : String)
  | readFailed (error : Error) (peer : PublicKey) (address : String)
  | writeFailed (error : Error) (peer : PublicKey) (address : String)
  | closed (peer : PublicKey) (address : String) (bytes : Nat)
  | connected (peer : PublicKey) (address : String)
  | echoed (index size : Nat)
  | allEchoed (messages bytes : Nat)

def shownAddress (address : SocketAddress) : String := address.textWithPort "*"

namespace Entry

def level : Entry → String
  | event e => e.level
  | readFailed .. | writeFailed .. => "WARN"
  | echoed .. => "DEBUG"
  | _ => "INFO"

/-- The part of the program that an entry is filed under. -/
def target : Entry → String
  | event e => s!"commonware_brontide::{e.part}"
  | _ => "commonware_brontide_echo"

/-- A number of bytes, which is left out if it came about by chance. -/
def amount (chance : Bool) (bytes : Nat) : String :=
  if chance && bytes != 0 then "*" else toString bytes

def text (chance : Bool) : Entry → String
  | loadedKey key => s!"loaded static key key={key.text}"
  | listening address key => s!"listening address={address} key={key.text}"
  | event e => e.text
  | accepted peer address => s!"accepted connection peer={peer.text} address={address}"
  | readFailed error peer address =>
    s!"read failed err={error.describe} peer={peer.text} address={address}"
  | writeFailed error peer address =>
    s!"write failed err={error.describe} peer={peer.text} address={address}"
  | closed peer address bytes =>
    s!"connection closed peer={peer.text} address={address} bytes={amount chance bytes}"
  | connected peer address => s!"connected peer={peer.text} address={address}"
  | echoed index size => s!"echoed {index} size={amount chance size}"
  | allEchoed messages bytes =>
    s!"all messages echoed messages={messages} bytes={amount chance bytes} elapsed=*"

/-- The entry as a line; `chance` says that its amounts of data came about by chance. -/
def line (chance : Bool) (e : Entry) : String := s!"{e.level} {e.target}: {e.text chance}"

end Entry
end NoiseLink.Echo
