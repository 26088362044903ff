import Pkix.Certificate
import Pkix.RevocationList
import Pkix.Proofs.Registry.History
import Pkix.Proofs.Extension.Value
import Pkix.Proofs.Registry.Resolve
import Pkix.Proofs.Extension.Lookup
import Pkix.Proofs.Wire.AuthorityKeyIdentifier
import Pkix.Proofs.RoundTrip
import Pkix.Proofs.AccessDescription
import Pkix.Proofs.Extension.AuthorityKeyIdentifier
import Pkix.Proofs.Extension.RoundTrip
import Pkix.Proofs.Extension.Reencoding
import Pkix.Proofs.Registry.Lookup
import Pkix.Proofs.Der.Exact
import Pkix.Proofs.Extension.Exact
import Pkix.Proofs.Pem
import Pkix.Proofs.Der.Rewrites
import Pkix.Proofs.Wire.Certificate
import Pkix.Proofs.Wire.RevocationList
import Pkix.Proofs.Document
import Pkix.Proofs.Text.Plain
import Pkix.Proofs.Xml.Tree
import Pkix.Proofs.Xml.Texts
import Pkix.Proofs.Xml.Nesting
import Pkix.Proofs.Xml.Indentation
import Pkix.Proofs.IpAddress.Text
import Pkix.Proofs.Text.Delimiter
import Pkix.Proofs.Xml.Comparison
import Pkix.Proofs.Oid.Dotted
import Pkix.Proofs.Registry.Dotted
import Pkix.Proofs.Extension.Trailing
import Pkix.Proofs.Name.Relative
import Pkix.Proofs.Error
import Pkix.Proofs.Extension.Labels
import Pkix.Proofs.Registry.Registration
import Pkix.Proofs.Der.TwosComplement
import Pkix.Proofs.Extension.Number
import Pkix.Proofs.Extension.Setting
import Pkix.Proofs.Der.Alphabet
import Pkix.Proofs.Name.Rewriting
import Pkix.Proofs.Text.WellFormed
import Pkix.Proofs.DirectoryText
import Pkix.Proofs.Name.Reading
import Pkix.Proofs.Name.Address
