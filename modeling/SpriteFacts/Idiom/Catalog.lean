import SpriteFacts.Metadata.Cut
import SpriteFacts.Metadata.Hint
import SpriteFacts.Metadata.Layer
import SpriteFacts.Metadata.PixelOffset
import SpriteFacts.Variant.Channel
import SpriteFacts.Variant.PackedColor
import SpriteFacts.Variant.Pulse
import SpriteFacts.Variant.Remap

/-! The catalog of all idiom chains, in the order in which an extraction consults them. -/

namespace SpriteFacts

/-- One chain of the catalog: the passes that use it, its field and its idioms in order of preference. -/
structure CatalogEntry where
  passes : String
  field : String
  idioms : List String
  deriving DecidableEq, Repr

namespace CatalogEntry

def ofChain {α : Type} (passes : String) (chain : IdiomChain α) : CatalogEntry := ⟨passes, chain.field, chain.names⟩

def padded (width : Nat) (s : String) : String := String.ofList (s.toList.rightpad width ' ')

/-- The entry on one line, its first two columns ten and fourteen characters wide. -/
def line (e : CatalogEntry) : String :=
  padded 10 e.passes ++ " " ++ padded 14 e.field ++ " " ++ ", ".intercalate e.idioms

end CatalogEntry

def catalog : List CatalogEntry :=
  [.ofChain "metadata" Cut.chain, .ofChain "metadata" Movement.chain, .ofChain "metadata" VerticalOffset.chain,
   .ofChain "metadata" Layer.chain, .ofChain "metadata" PixelOffset.chain,
   .ofChain "character" Remap.characterChain, .ofChain "animated" Remap.animatedChain,
   .ofChain "variants" Pulse.maskChain, .ofChain "variants" Pulse.colorChain,
   .ofChain "variants" Pulse.lightChain, .ofChain "variants" PackedColors.chain]
  ++ Channel.all.map fun c => .ofChain "variants" c.chain

end SpriteFacts
