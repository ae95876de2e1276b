import ItemStore.Data.Model
import ItemStore.Exchange.Read
import ItemStore.Exchange.Write
import ItemStore.Value.Conversion
import ItemStore.Proofs.Addressing
import ItemStore.Proofs.Agreement
import ItemStore.Proofs.Arithmetic
import ItemStore.Proofs.Binding
import ItemStore.Proofs.Coercion
import ItemStore.Proofs.Demand
import ItemStore.Proofs.Freshness
import ItemStore.Proofs.Halves
import ItemStore.Proofs.Integers
import ItemStore.Proofs.Integral
import ItemStore.Proofs.Interleaving
import ItemStore.Proofs.Leaf
import ItemStore.Proofs.Line
import ItemStore.Proofs.Meaning
import ItemStore.Proofs.Mention
import ItemStore.Proofs.Omission
import ItemStore.Proofs.Outcome
import ItemStore.Proofs.Outline
import ItemStore.Proofs.Pages
import ItemStore.Proofs.Resolution
import ItemStore.Proofs.Restored
import ItemStore.Proofs.Retrieval
import ItemStore.Proofs.Selection
import ItemStore.Proofs.Sequences
import ItemStore.Proofs.Undeclared
import ItemStore.Proofs.WriteBack
