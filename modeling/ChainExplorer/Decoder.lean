import ChainExplorer.Address
import ChainExplorer.Lib.Json
import ChainExplorer.Lib.Utf8

/-!
# Decoded logs

A receipt's log against the built-in ABI registry (`decoder.rs`). The registry's events, and what
an ABI library reads from a log that fits one, are parameters.

* `decodeEvent`: the event a log is, named where its first topic is known. It may panic.
* `truncateHash`: a text short enough to read in a line. It may too.
* `DecodedEvent.param`: one argument by its name.
-/

namespace ChainExplorer

open Text

structure DecodedParam where
  ty : String
  name : String
  value : String
  indexed : Bool
deriving DecidableEq, Repr

structure DecodedEvent where
  name : Option String
  signature : Option String
  contract : String
  params : List DecodedParam
  topic0 : String
  logIndex : Option String
  transactionHash : Option String
deriving DecidableEq, Repr

/-- An event of the registry. -/
structure AbiEvent where
  name : String
  signature : String
  /-- The arguments of a log with these topics and this data; `none` when it does not fit. -/
  decodeLogParams : List Json → String → Option (List DecodedParam)

/-- **What the indexer is supplied with**: the events of the registry by the hash of their signature,
the canonical bytes of a signed transaction object, JSON as text, and lowercase. -/
class Codec extends unicode : Lowercase where
  events : Bytes → Option AbiEvent
  encodeSigned : Json → Option Bytes
  jsonText : Json → String

/-- No registry, and no transaction is signed. -/
@[reducible] def Codec.bare : Codec where
  unicode := .plain
  events _ := none
  encodeSigned _ := none
  jsonText _ := ""

/-- `0x…` and the hash of some bytes. -/
def keccakHex [Keccak] (input : Bytes) : String := blobHex (Keccak.keccak256 input).toList

/-- `topic0` of a transfer. -/
def transferTopic [Keccak] : String := keccakHex (utf8 "Transfer(address,address,uint256)")

def feeManagerAddress : String := "0xfeEC000000000000000000000000000000000000"

/-- One argument by the name the ABI gives it. -/
def DecodedEvent.param (e : DecodedEvent) (name : String) : Option String :=
  (e.params.find? fun p => p.name = name).map DecodedParam.value

/-- The event a topic names. -/
def registryEvent [Codec] (topic0 : String) : Option AbiEvent :=
  ((Hex.decode (without0x topic0.toList)).filter fun b => b.length = 32).bind Codec.events

/-- A hash or an address short enough to read in a line; `none` where a cut is inside a character,
and the slice panics. -/
def truncateHash (h : String) (head tail : ℕ) : Option String :=
  if h.isEmpty then some ""
  else if head + tail + 3 < Utf8.byteLength h.toList then do
    let front ← Utf8.splitBytes (head + 2) h.toList
    let back ← Utf8.splitBytes (Utf8.byteLength h.toList - tail) h.toList
    return String.ofList front.1 ++ "…" ++ String.ofList back.2
  else some h

theorem exists_truncateHash {h : String} (hascii : ∀ c ∈ h.toList, c.utf8Size = 1)
    (head tail : ℕ) : ∃ short, truncateHash h head tail = some short := by
  have hlength : Utf8.byteLength h.toList = h.toList.length := Utf8.byteLength_ascii hascii
  unfold truncateHash
  rw [hlength]
  split_ifs with hempty hlong
  · exact ⟨_, rfl⟩
  · rw [Utf8.splitBytes_ascii hascii (by omega), Utf8.splitBytes_ascii hascii (by omega)]
    exact ⟨_, rfl⟩
  · exact ⟨_, rfl⟩

/-- Raw data cut to 200 bytes; `none` where that is inside a character, and the slice panics. -/
def rawData (data : String) : Option String :=
  if 200 < Utf8.byteLength data.toList then
    (Utf8.splitBytes 200 data.toList).map fun cut => String.ofList cut.1 ++ "..."
  else some data

/-- **Decode one receipt log**, or panic. A log under a known topic that does not fit the definition
keeps the name, with no arguments; one under an unknown topic is unnamed and carries its raw data. -/
def decodeEvent [Codec] (log : Json) : Option (Option DecodedEvent) :=
  match (log.get "topics").bind Json.asArray with
  | none | some [] => some none
  | some (first :: rest) =>
    let topic0 := first.asStr.getD ""
    let data := log.text "data" "0x"
    let known := registryEvent topic0
    let params :=
      match known with
      | some event => some ((event.decodeLogParams (first :: rest) data).getD [])
      | none => (rawData data).map fun raw => [⟨"bytes", "data", raw, false⟩]
    params.map fun params => some {
      name := known.map AbiEvent.name
      signature := known.map AbiEvent.signature
      contract := log.text "address" ""
      params := params
      topic0 := topic0
      logIndex := (log.get "logIndex").bind Json.asStr
      transactionHash := (log.get "transactionHash").bind Json.asStr }

end ChainExplorer
