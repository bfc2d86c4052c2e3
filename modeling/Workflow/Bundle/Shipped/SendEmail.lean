/-
The module for nodes that send a message, as bundles embed it.
-/

namespace Workflow.Bundle.Shipped

/-- The lines of the module for nodes that send a message. -/
def sendEmailLines : List String := [
  "\"\"\"",
  "Resend \"send email\" node runtime.",
  "",
  "Params:",
  "    fromEmail, toEmail, subject, body",
  "Secrets:",
  "    apiKey: Resend API key",
  "\"\"\"",
  "",
  "import asyncio",
  "",
  "import aiohttp",
  "",
  "from flowsmith.nodes.base import NodeExecutionError, Properties, Secrets, require_secret",
  "",
  "",
  "RESEND_API_URL = \"https://api.resend.com/emails\"",
  "",
  "",
  "async def execute(props: Properties, secrets: Secrets):",
  "    api_key = require_secret(secrets, \"apiKey\", \"send-email\")",
  "",
  "    payload = \x7b",
  "        \"from\": props.get(\"fromEmail\"),",
  "        \"to\": [props.get(\"toEmail\")],",
  "        \"subject\": props.get(\"subject\"),",
  "        \"html\": props.get(\"body\"),",
  "    \x7d",
  "",
  "    try:",
  "        async with aiohttp.ClientSession() as http:",
  "            async with http.post(",
  "                RESEND_API_URL,",
  "                json=payload,",
  "                headers=\x7b\"Authorization\": f\"Bearer \x7bapi_key\x7d\"\x7d,",
  "                timeout=aiohttp.ClientTimeout(total=30),",
  "            ) as response:",
  "                try:",
  "                    data = await response.json(content_type=None)",
  "                except ValueError as e:",
  "                    raise NodeExecutionError(",
  "                        f\"Resend API returned a non-JSON response (status \x7bresponse.status\x7d)\",",
  "                        \"send-email\",",
  "                    ) from e",
  "                if response.status >= 400:",
  "                    message = data.get(\"message\") if isinstance(data, dict) else None",
  "                    raise NodeExecutionError(",
  "                        f\"Resend API error \x7bresponse.status\x7d: \x7bmessage or 'request rejected'\x7d\",",
  "                        \"send-email\",",
  "                    )",
  "    except asyncio.TimeoutError as e:",
  "        raise NodeExecutionError(\"Resend API request timed out\", \"send-email\") from e",
  "    except aiohttp.ClientError as e:",
  "        raise NodeExecutionError(f\"Resend API request failed: \x7be\x7d\", \"send-email\") from e",
  "",
  "    return \x7b",
  "        \"success\": True,",
  "        \"id\": data.get(\"id\") if isinstance(data, dict) else None,",
  "        \"message\": f\"Email \x7bprops.get('fromEmail')\x7d sent to \x7bprops.get('toEmail')\x7d\",",
  "    \x7d"]

end Workflow.Bundle.Shipped
